import MinhServer.Http.LongHead
import MinhServer.Library.Machine
import MinhServer.Library.Memory

/-!
# The buffer of a receiving call

`recvRequest` statement by statement, on its own variables: the allocation behind `req` with
whatever `realloc` leaves in it, `size_t` counters and `int` offsets. An access outside the
allocation and a `size_t` that does not fit the `int` it is stored in stop the call with a
fault. Allocations succeed.
-/

namespace MinhServer
open CString Wire

/-- `a - b` in `size_t`. -/
def sizeSub (a b : Nat) : Nat := (a + (2 ^ 64 - b % 2 ^ 64)) % 2 ^ 64

/-- An `int` as a `size_t`. -/
def sizeOfInt (x : Int) : Nat := (x % 2 ^ 64).toNat

/-- A `size_t` as an `int`, if the conversion is exact. -/
def intOfSize (n : Nat) : Option Int := if int32 n = n then some (int32 n) else none

/-- `total_len - header_end_pos` as an `int`, exact or not. -/
def bodyLenActual (totalLen : Nat) (headerEndPos : Int) : Int :=
  int32 (sizeSub totalLen (sizeOfInt headerEndPos))

/-- The locals of `recvRequest`; `req` is the whole allocation. -/
structure RecvLocals where
  req : Bytes := List.replicate 4096 0
  totalLen : Nat := 0
  bufferSize : Nat := 4096
  headerEndPos : Int := -1
  contentLength : Int := -1
  isChunked : Bool := false
  deriving DecidableEq, Repr

/-- The backward scan with its `int` index. -/
def chunkedBodyComplete (body : Bytes) (bodyLen : Nat) : Option Bool := do
  if (← intOfSize bodyLen) < 5 then some false
  else
    let i ← intOfSize (sizeSub bodyLen 5)
    some (scanEndMarker body i.toNat)

namespace RecvLocals

/-- The length offered to `recv`. -/
def remaining (l : RecvLocals) : Nat := sizeSub l.bufferSize l.totalLen

/-- `stale` is what the new cells of a reallocation hold. -/
def grow (stale : Nat → Byte) (l : RecvLocals) : RecvLocals :=
  if l.remaining = 0 then
    let bufferSize := l.bufferSize * 2 % 2 ^ 64
    { l with bufferSize := bufferSize, req := Memory.realloc stale l.req bufferSize }
  else l

/-- `recv` writes at `req + total_len`. -/
def receive (l : RecvLocals) (bytes : Bytes) : Option RecvLocals := do
  let req ← Memory.store l.req l.totalLen bytes
  some { l with req := req, totalLen := (l.totalLen + bytes.length) % 2 ^ 64 }

/-- The search for the end of the head; `true` when the method ends the request there. -/
def findHeader (l : RecvLocals) : Option (Bool × RecvLocals) :=
  if l.headerEndPos ≠ -1 then some (false, l)
  else do
    let data ← Memory.load l.req 0 l.totalLen
    match findHttpHeaderEnd data with
    | none => some (false, l)
    | some pos =>
      let headerEndPos ← intOfSize pos
      let headers ← Memory.load l.req 0 (sizeOfInt headerEndPos)
      let l := { l with headerEndPos := headerEndPos }
      if isBodyless (requestMethod headers) then some (true, l)
      else
        let headersLen := sizeOfInt headerEndPos
        some (false, { l with
          contentLength := getContentLength headers headersLen
          isChunked := isChunkedTransfer headers headersLen })

/-- The test whether the request is complete. -/
def isComplete (l : RecvLocals) : Option Bool :=
  if l.headerEndPos = -1 then some false
  else if 0 < l.contentLength then do
    let bodyLenActual ← intOfSize (sizeSub l.totalLen (sizeOfInt l.headerEndPos))
    some (decide (l.contentLength ≤ bodyLenActual))
  else if l.isChunked then do
    let bodyLen := sizeSub l.totalLen (sizeOfInt l.headerEndPos)
    let body ← Memory.load l.req (sizeOfInt l.headerEndPos) bodyLen
    chunkedBodyComplete body bodyLen
  else do
    let totalLen ← intOfSize l.totalLen
    some (decide (l.headerEndPos < totalLen))

/-- Writing the NUL behind the bytes received. -/
def terminate (stale : Nat → Byte) (l : RecvLocals) : Option RecvLocals :=
  if 0 < l.totalLen then
    if l.totalLen < l.bufferSize then do
      let req ← Memory.store l.req l.totalLen [0]
      some { l with req := req }
    else do
      let req ← Memory.store (Memory.realloc stale l.req ((l.totalLen + 1) % 2 ^ 64)) l.totalLen [0]
      some { l with req := req }
  else some l

end RecvLocals

/-- Where a call is: at the head of the loop, in `recv`, behind the bytes just received, behind
the search for the head, behind the loop, or over. -/
inductive RecvPoint where
  | loopHead (l : RecvLocals)
  | receiving (l : RecvLocals)
  | received (l : RecvLocals)
  | searched (l : RecvLocals)
  | loopEnd (l : RecvLocals)
  | returned (l : RecvLocals)
  | null
  | fault
  deriving DecidableEq, Repr

/-- A call and the outcomes of its `recv`s so far. -/
structure RecvCall where
  outcomes : List (RecvResult Byte) := []
  point : RecvPoint := .loopHead {}
  deriving DecidableEq, Repr

/-- The code runs on to the next point, or the pending `recv` returns. -/
inductive RecvEvent where
  | run
  | recv (outcome : RecvResult Byte)
  deriving DecidableEq, Repr

/-- A statement that has no result is a fault. -/
def RecvPoint.ofOption {α : Type} (f : α → RecvPoint) : Option α → RecvPoint
  | none => .fault
  | some a => f a

namespace RecvPoint

/-- From one point to the next without `recv`. -/
def run (stale : Nat → Byte) : RecvPoint → Option RecvPoint
  | .loopHead l => some (.receiving (l.grow stale))
  | .received l => some (ofOption
      (fun (done, l) => if done then .loopEnd l else .searched l) l.findHeader)
  | .searched l => some (ofOption
      (fun done => if done then .loopEnd l else if maxRequest < l.totalLen then .null
        else .loopHead l) l.isComplete)
  | .loopEnd l => some (ofOption .returned (l.terminate stale))
  | .receiving _ | .returned _ | .null | .fault => none

/-- A `recv` returns; a positive result is at most the length offered. -/
def recv : RecvPoint → RecvResult Byte → Option RecvPoint
  | .receiving l, .data bytes =>
    if bytes ≠ [] ∧ bytes.length ≤ l.remaining then some (ofOption .received (l.receive bytes))
    else none
  | .receiving l, .eof => some (.loopEnd l)
  | .receiving _, .again => some .null
  | .receiving _, .error => some .null
  | _, _ => none

end RecvPoint

/-- A call of `recvRequest`. -/
def recvMachine (stale : Nat → Byte) : Machine RecvCall RecvEvent where
  init c := c = {}
  step c
    | .run => (c.point.run stale).map fun point => { c with point := point }
    | .recv outcome => (c.point.recv outcome).map fun point =>
      { outcomes := c.outcomes ++ [outcome], point := point }

/-- The bytes that these `recv`s returned. -/
def receivedBytes (outcomes : List (RecvResult Byte)) : Bytes :=
  outcomes.flatMap fun
    | .data bytes => bytes
    | _ => []

theorem sizeSub_eq {a b : Nat} (hb : b ≤ a) (ha : a < 2 ^ 64) : sizeSub a b = a - b := by
  unfold sizeSub
  omega

theorem sizeOfInt_natCast {n : Nat} (h : n < 2 ^ 64) : sizeOfInt n = n := by
  unfold sizeOfInt
  omega

theorem intOfSize_eq {n : Nat} (h : n < 2 ^ 31) : intOfSize n = some (n : Int) := by
  rw [intOfSize, int32_eq_self h, if_pos rfl]

/-- What the source stores in `header_end_pos`. -/
def headerInt (headerEndPos : Option Nat) : Int := (headerEndPos.map Int.ofNat).getD (-1)

/-- The locals hold the state `s` of the loop. -/
structure Represents (l : RecvLocals) (s : RecvState) : Prop where
  alloc : l.req.length = s.bufferSize
  bufferSize : l.bufferSize = s.bufferSize
  totalLen : l.totalLen = s.data.length
  contents : l.req.take s.data.length = s.data
  headerEndPos : l.headerEndPos = headerInt s.headerEndPos
  contentLength : l.contentLength = s.contentLength
  isChunked : l.isChunked = s.isChunked
  blank : s.data = [] → l.req[0]? = some 0

/-- The data fit a buffer of at most 16 MiB, and the head lies inside the data. -/
structure Fitting (s : RecvState) : Prop where
  size : IsBufferSize s.bufferSize
  small : s.bufferSize ≤ 2 ^ 24
  fits : s.data.length ≤ s.bufferSize
  header : ∀ pos, s.headerEndPos = some pos → 4 ≤ pos ∧ pos ≤ s.data.length

theorem represents_init : Represents {} {} where
  alloc := List.length_replicate
  bufferSize := rfl
  totalLen := rfl
  contents := rfl
  headerEndPos := rfl
  contentLength := rfl
  isChunked := rfl
  blank _ := rfl

theorem RecvInv.fitting {s : RecvState} (h : RecvInv s) : Fitting s where
  size := h.size
  small := h.size.le_of_tight h.tight h.limit
  fits := h.fits
  header := fun _ hpos => findHttpHeaderEnd_le (h.header ▸ hpos)

theorem grow_headerEndPos (s : RecvState) : s.grow.headerEndPos = s.headerEndPos := by
  unfold RecvState.grow
  split_ifs <;> rfl

theorem RecvInv.fitting_grow {s : RecvState} (h : RecvInv s) : Fitting s.grow where
  size := h.room_grow.1
  small := h.room_grow.1.le_of_tight h.room_grow.2.2 h.limit
  fits := by
    rw [grow_data]
    exact h.room_grow.2.1.le
  header := by
    rw [grow_headerEndPos, grow_data]
    exact h.fitting.header

/-- The locals after the loop: `req` points at the buffer that `s` is finished to. -/
structure Finished (l : RecvLocals) (s : RecvState) : Prop where
  alloc : l.req.length = s.finish.size
  memory : s.finish.memory <+: l.req
  bufferSize : l.bufferSize = s.bufferSize
  totalLen : l.totalLen = s.data.length
  headerEndPos : l.headerEndPos = headerInt s.headerEndPos

section Represents
variable {stale : Nat → Byte} {l : RecvLocals} {s : RecvState}

theorem Represents.remaining (h : Represents l s) (hs : Fitting s) : l.remaining = s.remaining := by
  have hfits := hs.fits
  have hsmall := hs.small
  rw [RecvLocals.remaining, RecvState.remaining, h.bufferSize, h.totalLen]
  exact sizeSub_eq hfits (by omega)

theorem Represents.grow (h : Represents l s) (hs : Fitting s) :
    Represents (l.grow stale) s.grow := by
  have hfits := hs.fits
  have hsmall := hs.small
  have hrem := h.remaining hs
  unfold RecvLocals.grow RecvState.grow
  rw [hrem, RecvState.remaining]
  split_ifs with hfull
  · have hdouble : l.bufferSize * 2 % 2 ^ 64 = s.bufferSize * 2 := by
      rw [h.bufferSize]
      omega
    have hkept : (Memory.realloc stale l.req (l.bufferSize * 2 % 2 ^ 64)).take s.data.length =
        s.data := by
      rw [Memory.take_realloc (by rw [h.alloc]; exact hfits) (by omega), h.contents]
    refine ⟨?_, hdouble, h.totalLen, hkept, h.headerEndPos, h.contentLength, h.isChunked, ?_⟩
    · rw [Memory.length_realloc, hdouble]
    · intro hnil
      have hpos := hs.size.pos
      have hfull' : s.bufferSize - s.data.length = 0 := hfull
      rw [show s.data = [] from hnil, List.length_nil] at hfull'
      omega
  · exact h

/-- The bytes of one `recv` are appended. -/
theorem Represents.receive (h : Represents l s) (hs : Fitting s) {bytes : Bytes}
    (hne : bytes ≠ []) (hroom : s.data.length + bytes.length ≤ s.bufferSize) :
    ∃ l', l.receive bytes = some l' ∧ Represents l' { s with data := s.data ++ bytes } := by
  have hsmall := hs.small
  have hend : l.totalLen + bytes.length ≤ l.req.length := by
    rw [h.alloc, h.totalLen]
    exact hroom
  obtain ⟨req, hstore, hlen, htake⟩ := Memory.exists_store hend
  have htotal : (l.totalLen + bytes.length) % 2 ^ 64 = (s.data ++ bytes).length := by
    rw [h.totalLen, List.length_append]
    omega
  refine ⟨{ l with req := req, totalLen := (l.totalLen + bytes.length) % 2 ^ 64 }, ?_, ?_⟩
  · rw [RecvLocals.receive, hstore]
    rfl
  · refine ⟨hlen.trans h.alloc, h.bufferSize, htotal, ?_, h.headerEndPos, h.contentLength,
      h.isChunked, fun hnil => ?_⟩
    · rw [h.totalLen, h.contents] at htake
      rw [List.length_append]
      exact htake
    · exact absurd (List.append_eq_nil_iff.mp hnil).2 hne

/-- The bytes received can be read back. -/
theorem Represents.load (h : Represents l s) (hs : Fitting s) {start len : Nat}
    (hend : start + len ≤ s.data.length) :
    Memory.load l.req start len = some ((s.data.drop start).take len) := by
  have hfits := hs.fits
  rw [Memory.load_of_le (by rw [h.alloc]; omega)]
  congr 1
  rw [← h.contents, List.drop_take, List.take_take, Nat.min_eq_left (by omega)]

theorem headerInt_some (pos : Nat) : headerInt (some pos) = pos := rfl

theorem headerInt_eq_neg_one_iff {headerEndPos : Option Nat} :
    headerInt headerEndPos = -1 ↔ headerEndPos = none := by
  cases headerEndPos with
  | none => simp [headerInt]
  | some pos =>
    rw [headerInt_some]
    simp

/-- The search for the head: no conversion in it is inexact. -/
theorem Represents.findHeader (h : Represents l s) (hs : Fitting s) :
    match s.findHeader with
    | none => ∃ l' pos, l.findHeader = some (true, l') ∧ findHttpHeaderEnd s.data = some pos ∧
        Represents l' { s with headerEndPos := some pos }
    | some s' => ∃ l', l.findHeader = some (false, l') ∧ Represents l' s' := by
  have hsmall := hs.fits.trans hs.small
  unfold RecvLocals.findHeader RecvState.findHeader
  cases hpos : s.headerEndPos with
  | some pos =>
    have hne : l.headerEndPos ≠ -1 := by
      rw [h.headerEndPos, ne_eq, headerInt_eq_neg_one_iff, hpos]
      simp
    rw [if_pos hne]
    exact ⟨l, rfl, h⟩
  | none =>
    have heq : l.headerEndPos = -1 := by
      rw [h.headerEndPos, headerInt_eq_neg_one_iff, hpos]
    have hdata : Memory.load l.req 0 l.totalLen = some s.data := by
      rw [h.load hs (by rw [h.totalLen]; omega), h.totalLen, List.drop_zero, List.take_length]
    rw [if_neg (not_not.mpr heq), hdata, Option.bind_eq_bind, Option.bind_some]
    cases hfind : findHttpHeaderEnd s.data with
    | none => exact ⟨l, rfl, h⟩
    | some pos =>
      have hle := (findHttpHeaderEnd_le hfind).2
      have hheaders : Memory.load l.req 0 pos = some (s.data.take pos) := by
        rw [h.load hs (by omega), List.drop_zero]
      simp only [intOfSize_eq (by omega : pos < 2 ^ 31), hheaders, Option.bind_eq_bind,
        Option.bind_some, sizeOfInt_natCast (by omega : pos < 2 ^ 64)]
      cases isBodyless (requestMethod (s.data.take pos)) with
      | true =>
        exact ⟨_, pos, rfl, rfl, h.alloc, h.bufferSize, h.totalLen, h.contents, rfl,
          h.contentLength, h.isChunked, h.blank⟩
      | false =>
        exact ⟨_, rfl, h.alloc, h.bufferSize, h.totalLen, h.contents, rfl, rfl, rfl, h.blank⟩

theorem chunkedBodyComplete_eq {body : Bytes} (h : body.length < 2 ^ 31) :
    chunkedBodyComplete body body.length = some (isChunkedBodyComplete body) := by
  unfold chunkedBodyComplete isChunkedBodyComplete
  rw [intOfSize_eq h, Option.bind_eq_bind, Option.bind_some]
  by_cases hshort : body.length < 5
  · rw [if_pos (by omega), if_pos hshort]
  · rw [if_neg (by omega), if_neg hshort, sizeSub_eq (by omega) (by omega),
      intOfSize_eq (by omega), Option.bind_some, Int.toNat_natCast]

/-- The completeness test: no conversion in it is inexact. -/
theorem Represents.isComplete (h : Represents l s) (hs : Fitting s) :
    l.isComplete = some s.isComplete := by
  have hsmall := hs.fits.trans hs.small
  unfold RecvLocals.isComplete RecvState.isComplete
  rw [h.headerEndPos, h.contentLength, h.isChunked, h.totalLen]
  cases hpos : s.headerEndPos with
  | none => rfl
  | some pos =>
    have hle := (hs.header pos hpos).2
    -- the subtraction in `size_t` does not wrap, since the head is inside the data
    have hsub : sizeSub s.data.length (sizeOfInt pos) = s.data.length - pos := by
      rw [sizeOfInt_natCast (by omega), sizeSub_eq hle (by omega)]
    have hbody : Memory.load l.req (sizeOfInt pos) (s.data.length - pos) =
        some (s.data.drop pos) := by
      rw [sizeOfInt_natCast (by omega), h.load hs (by omega), ← List.length_drop, List.take_length]
    have hscan : chunkedBodyComplete (s.data.drop pos) (s.data.length - pos) =
        some (isChunkedBodyComplete (s.data.drop pos)) := by
      rw [← List.length_drop]
      apply chunkedBodyComplete_eq
      rw [List.length_drop]
      omega
    have hne : ¬ (pos : Int) = -1 := by omega
    rw [headerInt_some, if_neg hne]
    unfold bodyComplete
    by_cases hlen : 0 < s.contentLength
    · rw [if_pos hlen]
      dsimp only
      rw [if_pos hlen, hsub, intOfSize_eq (by omega), Nat.cast_sub hle]
      rfl
    · rw [if_neg hlen]
      dsimp only
      rw [if_neg hlen]
      by_cases hchunked : s.isChunked = true
      · rw [if_pos hchunked, if_pos hchunked, hsub, hbody, Option.bind_eq_bind, Option.bind_some,
          hscan]
      · rw [if_neg hchunked, if_neg hchunked, intOfSize_eq (by omega)]
        simp only [Option.bind_eq_bind, Option.bind_some, Nat.cast_lt]

theorem finish_memory (s : RecvState) : s.finish.memory = s.data ++ [0] := by
  rw [RecvBuffer.memory, finish_bytes]

theorem Represents.finished_of_blank (h : Represents l s) (hs : Fitting s) (hempty : s.data = []) :
    Finished l s := by
  have hcell := h.blank hempty
  refine ⟨?_, ?_, h.bufferSize, h.totalLen, h.headerEndPos⟩
  · have hroom : s.data.length < s.bufferSize := by
      rw [hempty]
      exact hs.size.pos
    rw [h.alloc, RecvState.finish, dif_pos hroom]
  · rw [finish_memory, hempty, List.nil_append]
    cases hreq : l.req with
    | nil => simp [hreq] at hcell
    | cons b t =>
      rw [hreq, List.getElem?_cons_zero, Option.some.injEq] at hcell
      rw [hcell]
      exact ⟨t, rfl⟩

theorem Represents.store_terminator (h : Represents l s) {mem : Bytes}
    (hlen : mem.length = s.finish.size) (hkept : mem.take s.data.length = s.data) :
    ∃ req, Memory.store mem l.totalLen [0] = some req ∧ Finished { l with req := req } s := by
  have hroom : l.totalLen + [(0 : Byte)].length ≤ mem.length := by
    have hterm := s.finish.terminated
    rw [finish_bytes] at hterm
    rw [hlen, h.totalLen, List.length_singleton]
    omega
  obtain ⟨req, hstore, hreq, hcontents⟩ := Memory.exists_store hroom
  rw [h.totalLen, hkept] at hcontents
  refine ⟨req, hstore, hreq.trans hlen, ?_, h.bufferSize, h.totalLen, h.headerEndPos⟩
  rw [finish_memory, ← hcontents]
  exact List.take_prefix _ _

/-- The NUL goes into the allocation, right behind the data. -/
theorem Represents.terminate (h : Represents l s) (hs : Fitting s) :
    ∃ l', l.terminate stale = some l' ∧ Finished l' s := by
  have hsmall := hs.fits.trans hs.small
  have hfits := hs.fits
  unfold RecvLocals.terminate
  by_cases hempty : s.data = []
  · have hzero : l.totalLen = 0 := by rw [h.totalLen, hempty, List.length_nil]
    rw [if_neg (by omega)]
    exact ⟨l, rfl, h.finished_of_blank hs hempty⟩
  · have hpos : 0 < l.totalLen := by
      rw [h.totalLen]
      exact List.length_pos_iff.mpr hempty
    have hfull : l.totalLen < l.bufferSize ↔ s.data.length < s.bufferSize := by
      rw [h.totalLen, h.bufferSize]
    rw [if_pos hpos]
    by_cases hroom : s.data.length < s.bufferSize
    · have hsize : l.req.length = s.finish.size := by
        rw [h.alloc, RecvState.finish, dif_pos hroom]
      obtain ⟨req, hreq, hfinished⟩ := h.store_terminator hsize h.contents
      rw [if_pos (hfull.mpr hroom), hreq]
      exact ⟨_, rfl, hfinished⟩
    · have htotal : (l.totalLen + 1) % 2 ^ 64 = s.data.length + 1 := by
        rw [h.totalLen]
        omega
      have hsize : (Memory.realloc stale l.req ((l.totalLen + 1) % 2 ^ 64)).length =
          s.finish.size := by
        rw [Memory.length_realloc, htotal, RecvState.finish, dif_neg hroom]
      have hkept : (Memory.realloc stale l.req ((l.totalLen + 1) % 2 ^ 64)).take s.data.length =
          s.data := by
        rw [htotal, Memory.take_realloc (by rw [h.alloc]; exact hfits) (by omega), h.contents]
      obtain ⟨req, hreq, hfinished⟩ := h.store_terminator hsize hkept
      rw [if_neg (mt hfull.mp hroom), hreq]
      exact ⟨_, rfl, hfinished⟩

end Represents

section Received
variable (os : List (RecvResult Byte))

theorem receivedBytes_append (os' : List (RecvResult Byte)) :
    receivedBytes (os ++ os') = receivedBytes os ++ receivedBytes os' := List.flatMap_append

theorem receivedBytes_data (bytes : Bytes) :
    receivedBytes (os ++ [.data bytes]) = receivedBytes os ++ bytes := by
  rw [receivedBytes_append]
  simp [receivedBytes]

theorem receivedBytes_other (o : RecvResult Byte) (h : ∀ bytes, o ≠ .data bytes) :
    receivedBytes (os ++ [o]) = receivedBytes os := by
  rw [receivedBytes_append]
  cases o with
  | data bytes => exact absurd rfl (h bytes)
  | eof | again | error => exact List.append_nil _

end Received

/-- The last `recv` added bytes to what the state `s` of the loop held. -/
structure LastArrival (os : List (RecvResult Byte)) (s : RecvState) : Prop where
  inv : RecvInv s
  last : ∃ before bytes, os = before ++ [.data bytes] ∧ s.data = receivedBytes before ∧ bytes ≠ []
  room : (receivedBytes os).length ≤ s.grow.bufferSize

/-- The loop ended within the limit, or with the arrival that completed the request. -/
def EndedWell (os : List (RecvResult Byte)) : Prop :=
  (receivedBytes os).length ≤ maxRequest ∨
    ∃ before bytes, os = before ++ [.data bytes] ∧ (receivedBytes before).length ≤ maxRequest ∧
      requestComplete (receivedBytes os) = true

/-- The state behind an arrival, before the search for the head. -/
def RecvState.arrived (s : RecvState) (data : Bytes) : RecvState := { s.grow with data := data }

/-- The invariant: at each point the locals hold a state of the loop. -/
def PointInv (os : List (RecvResult Byte)) : RecvPoint → Prop
  | .loopHead l => ∃ s, RecvInv s ∧ s.data = receivedBytes os ∧ Represents l s
  | .receiving l => ∃ s, RecvInv s ∧ s.data = receivedBytes os ∧ Represents l s.grow
  | .received l => ∃ s, LastArrival os s ∧ Represents l (s.arrived (receivedBytes os))
  | .searched l => ∃ s s', LastArrival os s ∧
      (s.arrived (receivedBytes os)).findHeader = some s' ∧ Represents l s'
  | .loopEnd l => ∃ s, Fitting s ∧ s.data = receivedBytes os ∧ Represents l s ∧ EndedWell os
  | .returned l => ∃ s, Fitting s ∧ s.data = receivedBytes os ∧ Finished l s ∧ EndedWell os
  | .null => requestComplete (receivedBytes os) = false
  | .fault => False

section Points
variable {stale : Nat → Byte} {os : List (RecvResult Byte)} {l : RecvLocals} {s s' : RecvState}

theorem LastArrival.findHeader_cases (h : LastArrival os s) :
    let data := receivedBytes os
    (requestComplete data = true ∧ (s.arrived data).findHeader = none) ∨
    ∃ s', (s.arrived data).findHeader = some s' ∧ s'.data = data ∧
      s'.bufferSize = s.grow.bufferSize ∧ s'.isComplete = requestComplete data ∧
      s'.headerEndPos = findHttpHeaderEnd data ∧
      ∀ pos, s'.headerEndPos = some pos →
        s'.contentLength = getContentLength (data.take pos) pos ∧
          s'.isChunked = isChunkedTransfer (data.take pos) pos := by
  obtain ⟨before, bytes, rfl, hdata, -⟩ := h.last
  have hcases := MinhServer.findHeader_cases h.inv.toHeadRead.grow bytes
  rwa [grow_data, hdata, ← receivedBytes_data] at hcases

theorem LastArrival.longer (h : LastArrival os s) : s.data.length ≤ (receivedBytes os).length := by
  obtain ⟨before, bytes, rfl, hdata, -⟩ := h.last
  rw [receivedBytes_data, hdata, List.length_append]
  omega

/-- A state behind an arrival fits the buffer of the arrival. -/
theorem LastArrival.fitting (h : LastArrival os s) (hdata : s'.data = receivedBytes os)
    (hsize : s'.bufferSize = s.grow.bufferSize)
    (hheader : ∀ pos, s'.headerEndPos = some pos → findHttpHeaderEnd (receivedBytes os) = some pos) :
    Fitting s' where
  size := hsize ▸ h.inv.fitting_grow.size
  small := hsize ▸ h.inv.fitting_grow.small
  fits := by
    rw [hdata, hsize]
    exact h.room
  header := by
    intro pos hpos
    rw [hdata]
    exact findHttpHeaderEnd_le (hheader pos hpos)

theorem LastArrival.fitting_arrived (h : LastArrival os s) :
    Fitting (s.arrived (receivedBytes os)) := by
  have hheader : ∀ pos, (s.arrived (receivedBytes os)).headerEndPos = some pos →
      findHttpHeaderEnd (receivedBytes os) = some pos := by
    intro pos hpos
    obtain ⟨before, bytes, rfl, hdata, -⟩ := h.last
    have hhead : findHttpHeaderEnd s.data = some pos := by
      rw [← h.inv.header, ← grow_headerEndPos]
      exact hpos
    rw [receivedBytes_data, ← hdata]
    exact findHttpHeaderEnd_append hhead bytes
  exact h.fitting rfl rfl hheader

theorem LastArrival.fitting_bodyless (h : LastArrival os s) {pos : Nat}
    (hpos : findHttpHeaderEnd (receivedBytes os) = some pos) :
    Fitting { s.arrived (receivedBytes os) with headerEndPos := some pos } := by
  have hheader : ∀ pos', some pos = some pos' →
      findHttpHeaderEnd (receivedBytes os) = some pos' := fun _ hpos' => hpos' ▸ hpos
  exact h.fitting rfl rfl hheader

theorem LastArrival.endedWell (h : LastArrival os s)
    (hdone : requestComplete (receivedBytes os) = true) : EndedWell os := by
  obtain ⟨before, bytes, hos, hdata, -⟩ := h.last
  have hlimit := h.inv.limit
  rw [hdata] at hlimit
  exact .inr ⟨before, bytes, hos, hlimit, hdone⟩

/-- After the search the state has the data and the buffer of the arrival, and its test is the
completeness test. -/
theorem LastArrival.searched (h : LastArrival os s)
    (hsome : (s.arrived (receivedBytes os)).findHeader = some s') :
    Fitting s' ∧ s'.data = receivedBytes os ∧ s'.isComplete = requestComplete (receivedBytes os) ∧
      (requestComplete (receivedBytes os) = false → (receivedBytes os).length ≤ maxRequest →
        RecvInv s') := by
  obtain ⟨-, hnone⟩ | ⟨t, ht, hdata, hsize, hcomplete, hheader, hfields⟩ := h.findHeader_cases
  · rw [hnone] at hsome
    cases hsome
  obtain rfl : t = s' := Option.some.inj (ht.symm.trans hsome)
  refine ⟨h.fitting hdata hsize fun _ hpos => hheader ▸ hpos, hdata, hcomplete, fun hnot hle => ?_⟩
  have hread : HeadRead t := by
    refine ⟨hdata ▸ hnot, hdata ▸ hheader, ?_⟩
    rw [hdata]
    exact hfields
  exact h.inv.more hread hsize (hdata ▸ h.longer) (hdata ▸ h.room) (hdata ▸ hle)

theorem pointInv_received (h : PointInv os (.received l)) {q : RecvPoint}
    (hrun : RecvPoint.run stale (.received l) = some q) : PointInv os q := by
  obtain ⟨s, harrival, hrep⟩ := h
  have hfound := hrep.findHeader harrival.fitting_arrived
  obtain ⟨hdone, hnone⟩ | ⟨s', hsome, -⟩ := harrival.findHeader_cases
  · rw [hnone] at hfound
    obtain ⟨l', pos, hl', hpos, hrep'⟩ := hfound
    simp only [RecvPoint.run, hl', RecvPoint.ofOption, ↓reduceIte, Option.some.injEq] at hrun
    subst hrun
    exact ⟨_, harrival.fitting_bodyless hpos, rfl, hrep', harrival.endedWell hdone⟩
  · rw [hsome] at hfound
    obtain ⟨l', hl', hrep'⟩ := hfound
    simp only [RecvPoint.run, hl', RecvPoint.ofOption, Bool.false_eq_true, ↓reduceIte,
      Option.some.injEq] at hrun
    subst hrun
    exact ⟨s, s', harrival, hsome, hrep'⟩

theorem pointInv_searched (h : PointInv os (.searched l)) {q : RecvPoint}
    (hrun : RecvPoint.run stale (.searched l) = some q) : PointInv os q := by
  obtain ⟨s, s', harrival, hsome, hrep⟩ := h
  obtain ⟨hfitting, hdata, hcomplete, hmore⟩ := harrival.searched hsome
  have htotal : l.totalLen = (receivedBytes os).length := by rw [hrep.totalLen, hdata]
  simp only [RecvPoint.run, hrep.isComplete hfitting, hcomplete, RecvPoint.ofOption,
    Option.some.injEq] at hrun
  cases hdone : requestComplete (receivedBytes os) with
  | true =>
    rw [hdone, if_pos rfl] at hrun
    subst hrun
    exact ⟨s', hfitting, hdata, hrep, harrival.endedWell hdone⟩
  | false =>
    rw [hdone, if_neg (by decide)] at hrun
    by_cases hlong : maxRequest < l.totalLen
    · rw [if_pos hlong] at hrun
      subst hrun
      exact hdone
    · rw [if_neg hlong] at hrun
      subst hrun
      exact ⟨s', hmore hdone (by omega), hdata, hrep⟩

theorem pointInv_run {p q : RecvPoint} (h : PointInv os p) (hrun : p.run stale = some q) :
    PointInv os q := by
  cases p with
  | loopHead l =>
    obtain ⟨s, hinv, hdata, hrep⟩ := h
    cases hrun
    exact ⟨s, hinv, hdata, hrep.grow hinv.fitting⟩
  | received l => exact pointInv_received h hrun
  | searched l => exact pointInv_searched h hrun
  | loopEnd l =>
    obtain ⟨s, hfitting, hdata, hrep, hended⟩ := h
    obtain ⟨l', hl', hfinished⟩ : ∃ l', l.terminate stale = some l' ∧ Finished l' s :=
      hrep.terminate hfitting
    simp only [RecvPoint.run, hl', RecvPoint.ofOption, Option.some.injEq] at hrun
    subst hrun
    exact ⟨s, hfitting, hdata, hfinished, hended⟩
  | receiving l | returned l | null | fault => cases hrun

/-- The return of a `recv` keeps the invariant. -/
theorem pointInv_recv {p q : RecvPoint} {o : RecvResult Byte} (h : PointInv os p)
    (hrecv : p.recv o = some q) : PointInv (os ++ [o]) q := by
  cases p with
  | receiving l =>
    obtain ⟨s, hinv, hdata, hrep⟩ := h
    have hincomplete : requestComplete (receivedBytes os) = false := hdata ▸ hinv.incomplete
    cases o with
    | data bytes =>
      simp only [RecvPoint.recv] at hrecv
      split at hrecv
      · next hoffer =>
        -- what was offered is the room left, so the bytes fit behind the data
        obtain ⟨hne, hlen⟩ := hoffer
        rw [hrep.remaining hinv.fitting_grow, RecvState.remaining] at hlen
        have hroom := hinv.room_grow.2.1
        rw [← grow_data] at hroom
        obtain ⟨l', hl', hrep'⟩ := hrep.receive hinv.fitting_grow hne (by omega)
        simp only [hl', RecvPoint.ofOption, Option.some.injEq] at hrecv
        subst hrecv
        have hgot : s.grow.data ++ bytes = receivedBytes (os ++ [.data bytes]) := by
          rw [grow_data, hdata, receivedBytes_data]
        refine ⟨s, ⟨hinv, ⟨os, bytes, rfl, hdata, hne⟩, ?_⟩, ?_⟩
        · rw [← hgot, List.length_append]
          omega
        · rw [← hgot]
          exact hrep'
      · cases hrecv
    | eof =>
      cases hrecv
      have hsame : receivedBytes (os ++ [.eof]) = receivedBytes os :=
        receivedBytes_other os .eof (by simp)
      refine ⟨s.grow, hinv.fitting_grow, ?_, hrep, .inl ?_⟩
      · rw [grow_data, hdata, hsame]
      · rw [hsame, ← hdata]
        exact hinv.limit
    | again =>
      cases hrecv
      rwa [← receivedBytes_other os .again (by simp)] at hincomplete
    | error =>
      cases hrecv
      rwa [← receivedBytes_other os .error (by simp)] at hincomplete
  | loopHead l | received l | searched l | loopEnd l | returned l | null | fault =>
    cases o <;> cases hrecv

end Points

theorem pointInv_reachable {stale : Nat → Byte} {c : RecvCall}
    (h : (recvMachine stale).Reachable c) : PointInv c.outcomes c.point := by
  have hinvariant : (recvMachine stale).Invariant (fun _ _ => True)
      fun c => PointInv c.outcomes c.point := by
    refine ⟨?_, ?_⟩
    · rintro c rfl
      exact ⟨{}, recvInv_init, rfl, represents_init⟩
    · intro c e c' hinv _ hstep
      cases e with
      | run =>
        obtain ⟨q, hrun, rfl⟩ := Option.map_eq_some_iff.mp hstep
        exact pointInv_run hinv hrun
      | recv o =>
        obtain ⟨q, hrecv, rfl⟩ := Option.map_eq_some_iff.mp hstep
        exact pointInv_recv hinv hrecv
  exact hinvariant.holds h

/-- The call ended as `recvRequest` does. -/
def RecvCall.EndsAs (c : RecvCall) : Option RecvBuffer → Prop
  | some r => ∃ l, c.point = .returned l ∧ receivedBytes c.outcomes = r.bytes ∧
      l.req.length = r.size ∧ r.memory <+: l.req
  | none => c.point = .null

section Refinement
variable {stale : Nat → Byte} {os : List (RecvResult Byte)} {l : RecvLocals} {s s' : RecvState}

theorem reachable_run {p q : RecvPoint} (h : (recvMachine stale).Reachable ⟨os, p⟩)
    (hrun : p.run stale = some q) : (recvMachine stale).Reachable ⟨os, q⟩ := by
  apply Machine.ReachableBy.step (e := .run) h trivial
  show Option.map _ (p.run stale) = _
  rw [hrun]
  rfl

theorem reachable_recv {p q : RecvPoint} {o : RecvResult Byte}
    (h : (recvMachine stale).Reachable ⟨os, p⟩) (hrecv : p.recv o = some q) :
    (recvMachine stale).Reachable ⟨os ++ [o], q⟩ := by
  apply Machine.ReachableBy.step (e := .recv o) h trivial
  show Option.map _ (p.recv o) = _
  rw [hrecv]
  rfl

theorem reachable_loopEnd (h : (recvMachine stale).Reachable ⟨os, .loopEnd l⟩)
    (hs : Fitting s) (hdata : s.data = receivedBytes os) (hrep : Represents l s) :
    ∃ c, (recvMachine stale).Reachable c ∧ c.EndsAs (some s.finish) := by
  obtain ⟨l', hl', hfinished⟩ : ∃ l', l.terminate stale = some l' ∧ Finished l' s :=
    hrep.terminate hs
  have hrun : RecvPoint.run stale (.loopEnd l) = some (.returned l') := by
    rw [RecvPoint.run, hl']
    rfl
  refine ⟨_, reachable_run h hrun, l', rfl, ?_, hfinished.alloc, hfinished.memory⟩
  rw [finish_bytes]
  exact hdata.symm

/-- Behind the arrivals `os`, with `t` in the loop, the machine goes where the loop goes. -/
def GoesWith (stale : Nat → Byte) (os : List (RecvResult Byte)) (t : RecvState) : Prop :=
  match t.findHeader with
  | none => ∃ c, (recvMachine stale).Reachable c ∧ c.EndsAs (some t.finish)
  | some s => if s.isComplete then
        ∃ c, (recvMachine stale).Reachable c ∧ c.EndsAs (some s.finish)
      else if maxRequest < s.data.length then
        ∃ c, (recvMachine stale).Reachable c ∧ c.EndsAs none
      else ∃ l, (recvMachine stale).Reachable ⟨os, .loopHead l⟩ ∧ RecvInv s ∧
        s.data = receivedBytes os ∧ Represents l s

theorem reachable_received (h : (recvMachine stale).Reachable ⟨os, .received l⟩)
    (harrival : LastArrival os s) (hrep : Represents l (s.arrived (receivedBytes os))) :
    GoesWith stale os (s.arrived (receivedBytes os)) := by
  have hfound := hrep.findHeader harrival.fitting_arrived
  unfold GoesWith
  cases hsearch : (s.arrived (receivedBytes os)).findHeader with
  | none =>
    rw [hsearch] at hfound
    -- a bodyless method: the call leaves the loop with the head found
    obtain ⟨l', pos, hl', hpos, hrep'⟩ := hfound
    have hrun : RecvPoint.run stale (.received l) = some (.loopEnd l') := by
      rw [RecvPoint.run, hl']
      rfl
    obtain ⟨c, hc, hends⟩ :=
      reachable_loopEnd (reachable_run h hrun) (harrival.fitting_bodyless hpos) rfl hrep'
    exact ⟨c, hc, hends⟩
  | some s' =>
    rw [hsearch] at hfound
    obtain ⟨l', hl', hrep'⟩ := hfound
    obtain ⟨hfitting, hdata, hcomplete, hmore⟩ := harrival.searched hsearch
    have hfirst : RecvPoint.run stale (.received l) = some (.searched l') := by
      rw [RecvPoint.run, hl']
      rfl
    -- the completeness test, then the limit
    have hnext : RecvPoint.run stale (.searched l') = some (if s'.isComplete = true then
        .loopEnd l' else if maxRequest < l'.totalLen then .null else .loopHead l') := by
      rw [RecvPoint.run, hrep'.isComplete hfitting]
      rfl
    have hreach := reachable_run (reachable_run h hfirst) hnext
    rw [hrep'.totalLen] at hreach
    dsimp only
    split_ifs with hdone hlong
    · rw [if_pos hdone] at hreach
      exact reachable_loopEnd hreach hfitting hdata hrep'
    · rw [if_neg hdone, if_pos hlong] at hreach
      exact ⟨_, hreach, rfl⟩
    · rw [if_neg hdone, if_neg hlong] at hreach
      rw [hcomplete, Bool.not_eq_true] at hdone
      exact ⟨l', hreach, hmore hdone (by rw [← hdata]; exact not_lt.mp hlong), hdata, hrep'⟩

theorem reachable_data {mode : Mode} {p q : Peer Byte} {bytes : Bytes}
    (h : (recvMachine stale).Reachable ⟨os, .receiving (l.grow stale)⟩) (hs : RecvInv s)
    (hdata : s.data = receivedBytes os) (hrep : Represents l s)
    (hrecv : p.recv mode s.grow.remaining = (.data bytes, q)) :
    GoesWith stale (os ++ [.data bytes]) { s.grow with data := s.grow.data ++ bytes } := by
  have hgrown : Represents (l.grow stale) s.grow := hrep.grow hs.fitting
  obtain ⟨hne, hlen, -⟩ := Peer.recv_data hrecv
  have hroom := hs.room_grow.2.1
  rw [RecvState.remaining] at hlen
  obtain ⟨l', hl', hrep'⟩ :=
    hgrown.receive hs.fitting_grow hne (by rw [grow_data] at hlen ⊢; omega)
  have hgot : s.grow.data ++ bytes = receivedBytes (os ++ [.data bytes]) := by
    rw [grow_data, hdata, receivedBytes_data]
  have harrival : LastArrival (os ++ [.data bytes]) s := by
    refine ⟨hs, ⟨os, bytes, rfl, hdata, hne⟩, ?_⟩
    rw [← hgot, List.length_append]
    rw [grow_data] at hlen ⊢
    omega
  have harrive : (recvMachine stale).Reachable ⟨os ++ [.data bytes], .received l'⟩ := by
    apply reachable_recv h
    rw [RecvPoint.recv, hgrown.remaining hs.fitting_grow, RecvState.remaining,
      if_pos ⟨hne, hlen⟩, hl']
    rfl
  have hnext := reachable_received harrive harrival (by rw [← hgot]; exact hrep')
  have harrived : s.arrived (receivedBytes (os ++ [.data bytes])) =
      { s.grow with data := s.grow.data ++ bytes } := by
    rw [hgot]
    rfl
  rwa [harrived] at hnext

/-- The loop over the peer's arrivals is a run of the machine. -/
theorem recvLoop_reaches {mode : Mode} {p p' : Peer Byte} {r : Option RecvBuffer}
    (h : (recvMachine stale).Reachable ⟨os, .loopHead l⟩) (hs : RecvInv s)
    (hdata : s.data = receivedBytes os) (hrep : Represents l s)
    (hloop : recvLoop mode s p = (r, p')) :
    ∃ c, (recvMachine stale).Reachable c ∧ c.EndsAs r := by
  induction hsize : p.size using Nat.strong_induction_on generalizing os l s p with
  | _ size ih =>
  have hstart : (recvMachine stale).Reachable ⟨os, .receiving (l.grow stale)⟩ :=
    reachable_run h rfl
  rw [recvLoop_eq] at hloop
  cases hrecv : p.recv mode s.grow.remaining with
  | mk res q =>
    rw [hrecv] at hloop
    cases res with
    | data bytes =>
      have hnext := reachable_data hstart hs hdata hrep hrecv
      rw [GoesWith] at hnext
      dsimp only at hloop
      rw [RecvState.onData] at hloop
      cases hsearch : ({ s.grow with data := s.grow.data ++ bytes } : RecvState).findHeader with
      | none =>
        rw [hsearch] at hloop hnext
        cases hloop
        exact hnext
      | some t =>
        rw [hsearch] at hloop hnext
        dsimp only at hloop hnext
        split_ifs at hnext with hdone hlong
        · rw [if_pos hdone] at hloop
          cases hloop
          exact hnext
        · rw [if_neg hdone, if_pos hlong] at hloop
          cases hloop
          exact hnext
        · rw [if_neg hdone, if_neg hlong] at hloop
          obtain ⟨l'', hreach, ht, htdata, htrep⟩ := hnext
          exact ih _ (hsize ▸ Peer.recv_size_lt hrecv) hreach ht htdata htrep hloop rfl
    | eof =>
      cases hloop
      have hgrown : Represents (l.grow stale) s.grow := hrep.grow hs.fitting
      apply reachable_loopEnd (reachable_recv hstart (o := .eof) rfl) hs.fitting_grow _ hgrown
      rw [grow_data, hdata, receivedBytes_other os .eof (by simp)]
    | again =>
      cases hloop
      exact ⟨_, reachable_recv hstart (o := .again) rfl, rfl⟩
    | error =>
      cases hloop
      exact ⟨_, reachable_recv hstart (o := .error) rfl, rfl⟩

/-- Every call of `recvRequest` is a run of the machine that ends in its result, whatever the
reallocations leave in memory. -/
theorem recvRequest_reaches (stale : Nat → Byte) (mode : Mode) (p : Peer Byte) :
    ∃ c, (recvMachine stale).Reachable c ∧ c.EndsAs (recvRequest mode p).1 :=
  recvLoop_reaches (.init rfl) recvInv_init rfl represents_init rfl

end Refinement

/-- The buffer and the counters, once the bytes `got` were received. -/
structure BufferSound (got : Bytes) (l : RecvLocals) : Prop where
  totalLen : l.totalLen = got.length
  contents : l.req.take l.totalLen = got
  fits : l.totalLen ≤ l.bufferSize
  alloc : l.bufferSize ≤ l.req.length
  size : ∃ k, l.bufferSize = 4096 * 2 ^ k
  small : l.bufferSize ≤ 2 ^ 24
  header : l.headerEndPos = -1 ∨ 4 ≤ l.headerEndPos ∧ l.headerEndPos ≤ l.totalLen
  total_exact : int32 l.totalLen = l.totalLen
  body_exact : l.headerEndPos ≠ -1 → 0 ≤ bodyLenActual l.totalLen l.headerEndPos ∧
    bodyLenActual l.totalLen l.headerEndPos = l.totalLen - l.headerEndPos

/-- What is promised at a point of a call that has received `got`. -/
def RecvPoint.Sound (got : Bytes) : RecvPoint → Prop
  | .loopHead l | .received l | .searched l | .loopEnd l => BufferSound got l
  | .receiving l => BufferSound got l ∧ 0 < l.remaining ∧ l.totalLen + l.remaining ≤ l.bufferSize
  | .returned l => BufferSound got l ∧ l.req[l.totalLen]? = some 0
  | .null => True
  | .fault => False

section Sound
variable {stale : Nat → Byte} {l : RecvLocals} {s : RecvState}

theorem Fitting.bufferSound (hs : Fitting s) (hbuffer : l.bufferSize = s.bufferSize)
    (htotal : l.totalLen = s.data.length) (hheader : l.headerEndPos = headerInt s.headerEndPos)
    (halloc : l.bufferSize ≤ l.req.length) (hcontents : l.req.take s.data.length = s.data) :
    BufferSound s.data l := by
  have hsmall := hs.small
  have hfits := hs.fits
  refine ⟨htotal, htotal ▸ hcontents, by omega, halloc, hbuffer ▸ hs.size, by omega, ?_, ?_, ?_⟩
  · rw [hheader, htotal]
    cases hpos : s.headerEndPos with
    | none => exact .inl rfl
    | some pos =>
      have hle := hs.header pos hpos
      rw [headerInt_some]
      omega
  · exact int32_eq_self (by omega)
  · rw [hheader, htotal]
    cases hpos : s.headerEndPos with
    | none => exact fun h => absurd rfl h
    | some pos =>
      have hle := hs.header pos hpos
      rw [headerInt_some, bodyLenActual, sizeOfInt_natCast (by omega), sizeSub_eq hle.2 (by omega),
        int32_eq_self (by omega)]
      omega

theorem Represents.bufferSound (h : Represents l s) (hs : Fitting s) : BufferSound s.data l :=
  hs.bufferSound h.bufferSize h.totalLen h.headerEndPos
    (Nat.le_of_eq (h.bufferSize.trans h.alloc.symm)) h.contents

theorem Finished.contents (h : Finished l s) :
    l.req.take s.data.length = s.data ∧ l.req[s.data.length]? = some 0 := by
  obtain ⟨t, ht⟩ := h.memory
  rw [RecvBuffer.memory, finish_bytes, List.append_assoc] at ht
  rw [← ht]
  refine ⟨List.take_left, ?_⟩
  rw [List.getElem?_append_right (Nat.le_refl _), Nat.sub_self]
  rfl

theorem Finished.bufferSound (h : Finished l s) (hs : Fitting s) : BufferSound s.data l := by
  have halloc : s.bufferSize ≤ s.finish.size := by
    have hfits := hs.fits
    unfold RecvState.finish
    split_ifs
    · exact Nat.le_refl _
    · dsimp only
      omega
  refine hs.bufferSound h.bufferSize h.totalLen h.headerEndPos ?_ h.contents.1
  rw [h.bufferSize, h.alloc]
  exact halloc

end Sound

/-- The buffer of a receiving call, for every sequence of `recv` outcomes and at every point: no
fault, and all that is promised there. -/
theorem receive_buffer_sound {stale : Nat → Byte} {c : RecvCall}
    (h : (recvMachine stale).Reachable c) : c.point.Sound (receivedBytes c.outcomes) := by
  obtain ⟨os, point⟩ := c
  have hinv := pointInv_reachable h
  cases point with
  | loopHead l =>
    obtain ⟨s, hs, hdata, hrep⟩ := hinv
    exact hdata ▸ hrep.bufferSound hs.fitting
  | receiving l =>
    obtain ⟨s, hs, hdata, hrep⟩ := hinv
    have hroom := hs.room_grow.2.1
    have hsound := hrep.bufferSound hs.fitting_grow
    have hrem : l.remaining = s.grow.bufferSize - s.data.length := by
      rw [hrep.remaining hs.fitting_grow, RecvState.remaining, grow_data]
    have htotal : l.totalLen = s.data.length := by rw [hrep.totalLen, grow_data]
    rw [grow_data, hdata] at hsound
    refine ⟨hsound, ?_, ?_⟩
    · omega
    · rw [hrep.bufferSize]
      omega
  | received l =>
    obtain ⟨s, harrival, hrep⟩ := hinv
    exact hrep.bufferSound harrival.fitting_arrived
  | searched l =>
    obtain ⟨s, s', harrival, hsome, hrep⟩ := hinv
    obtain ⟨hfitting, hdata, -⟩ := harrival.searched hsome
    exact hdata ▸ hrep.bufferSound hfitting
  | loopEnd l =>
    obtain ⟨s, hs, hdata, hrep, -⟩ := hinv
    exact hdata ▸ hrep.bufferSound hs
  | returned l =>
    obtain ⟨s, hs, hdata, hfinished, -⟩ := hinv
    have hnul := hfinished.contents.2
    rw [← hfinished.totalLen] at hnul
    exact ⟨hdata ▸ hfinished.bufferSound hs, hnul⟩
  | null => trivial
  | fault => exact hinv

/-- The buffer has grown to hold a head of 10 MB. -/
theorem receive_buffer_sound_grown : ∃ c r, (recvMachine fun _ => 255).Reachable c ∧
    c.EndsAs (some r) ∧ r.bytes = getHead 10000000 ∧ 10000018 < r.size ∧
      c.point.Sound (receivedBytes c.outcomes) := by
  obtain ⟨r, hrecv, hbytes⟩ := recvRequest_getHead 10000000 (by omega)
  obtain ⟨c, hc, hends⟩ :=
    recvRequest_reaches (fun _ => 255) .blocking (.ofSegments [getHead 10000000])
  rw [hrecv] at hends
  have hsize := r.terminated
  rw [hbytes, length_getHead] at hsize
  exact ⟨c, r, hc, hends, hbytes, hsize, receive_buffer_sound hc⟩

end MinhServer
