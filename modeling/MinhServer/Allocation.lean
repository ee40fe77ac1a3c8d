import Mathlib.Data.Finset.Option
import MinhServer.Classification
import MinhServer.Library.Ensures
import MinhServer.Library.Heap
import MinhServer.Rounds

namespace MinhServer.Allocating
open CString Wire

/-- How a call ends that does not return: as it does without a heap, or with a `free` or a
`realloc` of something that is not allocated. -/
inductive Crash where
  | fault (fault : Fault)
  | badFree
  deriving DecidableEq, Repr

theorem fault_ne_badFree (fault : Fault) : Crash.fault fault ≠ .badFree := Crash.noConfusion

def free (block : Nat) (h : Heap) : Except Crash Heap :=
  match h.free block with
  | none => .error .badFree
  | some h => .ok h

def realloc (block : Nat) (h : Heap) : Except Crash (Nat × Heap) :=
  match h.realloc block with
  | none => .error .badFree
  | some moved => .ok moved

def plain {α : Type} (x : Except Fault α) : Except Crash α := x.mapError .fault

/-- A full buffer is moved to twice its size. -/
def growBuffer (s : RecvState) (req : Nat) (h : Heap) : Except Crash (Nat × Heap) :=
  if s.remaining = 0 then realloc req h else .ok (req, h)

/-- The copy of the head that is made when its end is found, and freed once it is read. -/
def copyHeaders (s : RecvState) (bytes : Bytes) (h : Heap) : Except Crash Heap :=
  match s.headerEndPos with
  | some _ => .ok h
  | none =>
    match findHttpHeaderEnd (s.data ++ bytes) with
    | none => .ok h
    | some _ =>
      let (headers, h) := h.malloc
      free headers h

/-- Room for the terminator behind a full buffer. -/
def finishBuffer (s : RecvState) (req : Nat) (h : Heap) : Except Crash (Nat × Heap) :=
  if s.data.length < s.bufferSize then .ok (req, h) else realloc req h

/-- The loop of `recvRequest`, with its buffer `req`. -/
def recvLoop (mode : Mode) (s : RecvState) (req : Nat) (peer : Peer Byte) (h : Heap) :
    Except Crash (Option (Nat × RecvBuffer) × Peer Byte × Heap) := do
  let (req, h) ← growBuffer s req h
  let s := s.grow
  match _h : peer.recv mode s.remaining with
  | (.data bytes, peer') => do
    let h ← copyHeaders s bytes h
    match s.onData bytes with
    | .complete s' => do
      let (req, h) ← finishBuffer s' req h
      .ok (some (req, s'.finish), peer', h)
    | .tooLarge => do
      let h ← free req h
      .ok (none, peer', h)
    | .more s' => recvLoop mode s' req peer' h
  | (.eof, peer') => do
    let (req, h) ← finishBuffer s req h
    .ok (some (req, s.finish), peer', h)
  -- the buffer stays
  | (.again, peer') => .ok (none, peer', h)
  | (.error, peer') => do
    let h ← free req h
    .ok (none, peer', h)
termination_by peer.size
decreasing_by exact Peer.recv_size_lt _h

/-- `recvRequest(conn)`. -/
def receive (mode : Mode) (conn : Int) (peer : Peer Byte) (w : Worker) (h : Heap) :
    Except Crash (Option (Nat × RecvBuffer) × Peer Byte × Heap) :=
  let (req, h) := h.malloc
  if conn ∈ w.fds then recvLoop mode {} req peer h
  else do
    let h ← free req h
    .ok (none, peer, h)

/-- The two copies `info->method` and `info->path` are never freed. -/
def parseHttpRequestLine (line : Bytes) (info : ProtocolInfo) (h : Heap) :
    Option ProtocolInfo × Heap :=
  match MinhServer.parseHttpRequestLine line info with
  | none => (none, h)
  | some info =>
    let (_, h) := h.malloc
    let (_, h) := h.malloc
    (some info, h)

def detectProtocol (data : Bytes) (len : Nat) (h : Heap) : ProtocolInfo × Heap :=
  let info : ProtocolInfo := {}
  if len = 0 then (info, h)
  else if detectMqttProtocol data len then ({ info with type := .mqtt }, h)
  else if detectSslTlsProtocol data len then ({ info with type := .sslTls, isSecure := true }, h)
  else if isTextProtocol data len then
    let info := { info with type := .http }
    match strstr (cstr data) [13, 10] with
    | some lineLen =>
      if lineLen < 1024 then
        match parseHttpRequestLine (data.take lineLen) info h with
        | (some info, h) => (parseHttpHeaders data len info, h)
        | (none, h) => (info, h)
      else (info, h)
    | none => (info, h)
  else (info, h)

/-- The loop over the lines, each in a block of its own. -/
def parseLines (newLine : Bytes) (left i k : Nat) (req : HttpRequest) (h : Heap) :
    Except Crash (HttpRequest × Heap) :=
  if left = 0 then .ok (req, h)
  else
    match _h : strstr newLine crlf with
    | none => .error (.fault .badPointer)
    | some lineLen => do
      let line := newLine.take lineLen
      let (parseLine, h) := h.malloc
      let req ← plain (if i = 1 then parseRequestLine line req else parseHeaderLine line k req)
      let h ← free parseLine h
      parseLines (newLine.drop (lineLen + 2)) (left - (lineLen + 2)) (i + 1)
        (if i = 1 then k else k + 1) req h
termination_by newLine.length
decreasing_by
  have := strstr_end_le (by decide) _h
  simp only [crlf, List.length_cons, List.length_nil, List.length_drop] at *
  omega

/-- The copy `new_request` of the text is freed at the very end only; the result is the code, the
request and the block of its body. -/
def parseHttpRequest (request : Bytes) (req : HttpRequest) (h : Heap) :
    Except Crash (Int × HttpRequest × Option Nat × Heap) :=
  let (newRequest, h) := h.malloc
  match strstr (cstr request) headEnd with
  | none => .ok (-1, req, none, h)
  | some headerEndPos => do
    let (req, h) ← parseLines (cstr request) headerEndPos 1 0 req h
    let body := (cstr request).drop (headerEndPos + 4)
    if body = [] then .ok (0, req, none, h)
    else
      match req.contentLengthSlot with
      | none => do
        let h ← free newRequest h
        .ok (0, req, none, h)
      | some slot =>
        match slot.bodyLength with
        | none => .ok (-1, req, none, h)
        | some bodyLength =>
          if bodyLength ≠ body.length then .ok (-1, req, none, h)
          else do
            let (block, h) := h.malloc
            let h ← free newRequest h
            .ok (0, { req with bodyLength := bodyLength, body := some body }, some block, h)

/-- The block of `res.content_type` is never freed. -/
def sendStaticFile (conn : Int) (req : HttpRequest) (filepath : Bytes) (disk : Disk) (w : Worker)
    (h : Heap) : Except Crash (Worker × Heap) :=
  match disk.fopen filepath with
  | none => do
    let w ← plain (MinhServer.sendStaticFile conn req filepath disk w)
    .ok (w, h)
  | some _ => do
    let (_, h) := h.malloc
    let w ← plain (MinhServer.sendStaticFile conn req filepath disk w)
    .ok (w, h)

def handleGetRequest (conn : Int) (req : HttpRequest) (homeDir : Bytes) (disk : Disk) (w : Worker)
    (h : Heap) : Except Crash (HttpRequest × Worker × Heap) :=
  match requestPath req.path with
  | none => .error (.fault .badPointer)
  | some path =>
    let req := { req with path := path }
    let (home, h) := h.malloc
    if disk.readable (homeDir ++ path.bytes) then do
      let (w, h) ← sendStaticFile conn req (homeDir ++ path.bytes) disk w h
      let h ← free home h
      .ok (req, w, h)
    -- `home` stays
    else .ok (req, (sendErrorResponse conn 404 (ascii "Not Found") w).close conn, h)

def answer (conn : Int) (req : HttpRequest) (homeDir : Bytes) (disk : Disk) (w : Worker)
    (h : Heap) : Except Crash (HttpRequest × Worker × Heap) :=
  match route req with
  | .get => handleGetRequest conn req homeDir disk w h
  | .post => .ok (req, w, h)
  | .head => .ok (req, w, h)
  | .notImplemented => .ok (req, sendErrorResponse conn 501 (ascii "Not Implemented") w, h)

/-- Nothing in the program allocates a body for `res`. -/
def freeHttpResponse (res : HttpResponse) (h : Heap) : Except Crash Heap :=
  match res.body with
  | none => .ok h
  | some _ => .error .badFree

def freeHttpRequest (body : Option Nat) (h : Heap) : Except Crash Heap :=
  match body with
  | none => .ok h
  | some block => free block h

def handleHttpRequest (conn : Int) (req : HttpRequest) (request homeDir : Bytes) (disk : Disk)
    (w : Worker) (h : Heap) : Except Crash (HttpRequest × Option Nat × Worker × Heap) := do
  let (code, req, body, h) ← parseHttpRequest request req h
  if code < 0 then
    .ok (req, body, (sendErrorResponse conn 400 (ascii "Bad Request") w).close conn, h)
  else do
    let (req, w, h) ← answer conn req homeDir disk w h
    let h ← freeHttpResponse w.res h
    .ok (req, body, if shouldCloseConnection req then w.close conn else w, h)

section Blocks
variable {h₀ h : Heap} {blocks : Finset Nat} {n block : Nat}

theorem bind_ok {ε α β : Type} (a : α) (f : α → Except ε β) : (Except.ok a).bind f = f a := rfl

theorem ok_bind {ε α β : Type} (a : α) (f : α → Except ε β) : (Except.ok a >>= f) = f a := rfl

/-- The only block that is held is freed, or moved. -/
theorem free_only (hs : h₀.Holds {block} n h) :
    ∃ h', free block h = .ok h' ∧ h₀.Holds ∅ n h' := by
  obtain ⟨h', hfree, hs'⟩ := hs.free (Finset.mem_singleton_self block)
  rw [Finset.erase_singleton] at hs'
  exact ⟨h', by rw [free, hfree], hs'⟩

theorem free_older {h₁ : Heap} {m : Nat} (hs : h₀.Holds {block} n h₁) (hs' : h₁.Holds blocks m h) :
    ∃ h', free block h = .ok h' ∧ h₀.Holds blocks (n + m) h' := by
  obtain ⟨h', hfree, hrest⟩ := hs.free_older hs'
  exact ⟨h', by rw [free, hfree], hrest⟩

theorem realloc_only (hs : h₀.Holds {block} n h) :
    ∃ block' h', realloc block h = .ok (block', h') ∧ h₀.Holds {block'} n h' := by
  obtain ⟨block', h', hmove, hs'⟩ := hs.realloc (Finset.mem_singleton_self block)
  rw [Finset.erase_singleton, insert_empty_eq] at hs'
  exact ⟨block', h', by rw [realloc, hmove], hs'⟩

theorem leave_only (hs : h₀.Holds {block} n h) : h₀.Holds ∅ (n + 1) h := by
  have hleft := hs.leave (Finset.mem_singleton_self block)
  rwa [Finset.erase_singleton] at hleft

theorem malloc_only (hs : h₀.Holds ∅ n h) : h₀.Holds {h.malloc.1} n h.malloc.2 := by
  have hnew := hs.malloc
  rwa [insert_empty_eq] at hnew

theorem malloc_free (hs : h₀.Holds blocks n h) :
    ∃ h', free h.malloc.1 h.malloc.2 = .ok h' ∧ h₀.Holds blocks n h' := by
  obtain ⟨h', hfree, hs'⟩ := free_only (malloc_only (.refl h))
  exact ⟨h', hfree, hs.later hs'⟩

end Blocks

/-- In a call that is in state `s`, some `recv` to come finds nothing and the peer silent. -/
inductive Starves (mode : Mode) : RecvState → Peer Byte → Prop where
  | again {s p p'} (recv : p.recv mode s.grow.remaining = (.again, p')) : Starves mode s p
  | more {s s' p p' bytes} (recv : p.recv mode s.grow.remaining = (.data bytes, p'))
      (more : s.grow.onData bytes = .more s') (rest : Starves mode s' p') : Starves mode s p

/-- What a call of `recvRequest` returns and leaves: the buffer that the caller then holds, or
NULL and no block, but for the buffer when `recv` finds nothing. -/
inductive Delivered (h₀ : Heap) (starves : Prop) : Option (Nat × RecvBuffer) → Heap → Prop where
  | buffer {req r h'} (holds : h₀.Holds {req} 0 h') : Delivered h₀ starves (some (req, r)) h'
  | starved {h'} (starved : starves) (holds : h₀.Holds ∅ 1 h') : Delivered h₀ starves none h'
  | refused {h'} (fed : ¬ starves) (holds : h₀.Holds ∅ 0 h') : Delivered h₀ starves none h'

section Receive
variable {h₀ h : Heap} {n req : Nat} {s s' : RecvState} {mode : Mode} {p p' : Peer Byte}

theorem growBuffer_holds (hs : h₀.Holds {req} n h) :
    ∃ req' h', growBuffer s req h = .ok (req', h') ∧ h₀.Holds {req'} n h' := by
  unfold growBuffer
  split
  · exact realloc_only hs
  · exact ⟨req, h, rfl, hs⟩

theorem finishBuffer_holds (hs : h₀.Holds {req} n h) :
    ∃ req' h', finishBuffer s req h = .ok (req', h') ∧ h₀.Holds {req'} n h' := by
  unfold finishBuffer
  split
  · exact ⟨req, h, rfl, hs⟩
  · exact realloc_only hs

theorem copyHeaders_holds {blocks : Finset Nat} (hs : h₀.Holds blocks n h) (bytes : Bytes) :
    ∃ h', copyHeaders s bytes h = .ok h' ∧ h₀.Holds blocks n h' := by
  unfold copyHeaders
  split
  · exact ⟨h, rfl, hs⟩
  · split
    · exact ⟨h, rfl, hs⟩
    · exact malloc_free hs

theorem starves_more {bytes : Bytes} (hrecv : p.recv mode s.grow.remaining = (.data bytes, p'))
    (hmore : s.grow.onData bytes = .more s') : Starves mode s p ↔ Starves mode s' p' := by
  constructor
  · intro h
    cases h with
    | again recv =>
      rw [hrecv] at recv
      cases recv
    | more recv more rest =>
      rw [hrecv] at recv
      cases recv
      rw [hmore] at more
      cases more
      exact rest
  · exact .more hrecv hmore

theorem not_starves {r : RecvResult Byte} (hrecv : p.recv mode s.grow.remaining = (r, p'))
    (hagain : r ≠ .again) (hmore : ∀ bytes s', r = .data bytes → s.grow.onData bytes ≠ .more s') :
    ¬ Starves mode s p := by
  intro h
  cases h with
  | again recv =>
    rw [hrecv] at recv
    cases recv
    exact hagain rfl
  | more recv more rest =>
    rw [hrecv] at recv
    cases recv
    exact hmore _ _ rfl more

theorem recvLoop_delivers (hs : h₀.Holds {req} 0 h) :
    ∃ result h', recvLoop mode s req p h =
        .ok (result, (MinhServer.recvLoop mode s p).2, h') ∧
      result.map Prod.snd = (MinhServer.recvLoop mode s p).1 ∧
      Delivered h₀ (Starves mode s p) result h' := by
  induction hsize : p.size using Nat.strong_induction_on generalizing s p req h with
  | _ size ih =>
  obtain ⟨req₁, h₁, hgrow, hs₁⟩ := growBuffer_holds (s := s) hs
  rw [recvLoop, hgrow, ok_bind, recvLoop_eq]
  dsimp only
  split
  · next bytes p' hrecv =>
    rw [hrecv]
    obtain ⟨h₂, hcopy, hs₂⟩ := copyHeaders_holds (s := s.grow) hs₁ bytes
    rw [hcopy, ok_bind]
    dsimp only
    cases hdata : s.grow.onData bytes with
    | complete s' =>
      obtain ⟨req₃, h₃, hfinish, hs₃⟩ := finishBuffer_holds (s := s') hs₂
      dsimp only
      rw [hfinish]
      exact ⟨_, _, rfl, rfl, .buffer hs₃⟩
    | tooLarge =>
      obtain ⟨h₃, hfree, hs₃⟩ := free_only hs₂
      dsimp only
      rw [hfree]
      refine ⟨_, _, rfl, rfl, .refused (not_starves hrecv (by simp) ?_) hs₃⟩
      rintro bytes' s' ⟨⟩
      rw [hdata]
      simp
    | more s' =>
      dsimp only
      rw [starves_more hrecv hdata]
      exact ih _ (hsize ▸ Peer.recv_size_lt hrecv) hs₂ rfl
  · next p' hrecv =>
    rw [hrecv]
    obtain ⟨req₂, h₂, hfinish, hs₂⟩ := finishBuffer_holds (s := s.grow) hs₁
    rw [hfinish]
    exact ⟨_, _, rfl, rfl, .buffer hs₂⟩
  · next p' hrecv =>
    rw [hrecv]
    exact ⟨_, _, rfl, rfl, .starved (.again hrecv) (leave_only hs₁)⟩
  · next p' hrecv =>
    rw [hrecv]
    obtain ⟨h₂, hfree, hs₂⟩ := free_only hs₁
    rw [hfree]
    exact ⟨_, _, rfl, rfl, .refused (not_starves hrecv (by simp) (by simp)) hs₂⟩

theorem receive_delivers (conn : Int) (w : Worker) (h : Heap) :
    ∃ result h', receive mode conn p w h =
        .ok (result, (MinhServer.receive mode conn p w).2, h') ∧
      result.map Prod.snd = (MinhServer.receive mode conn p w).1 ∧
      Delivered h (conn ∈ w.fds ∧ Starves mode {} p) result h' := by
  have hs := malloc_only (.refl h)
  unfold receive MinhServer.receive
  dsimp only
  by_cases hopen : conn ∈ w.fds
  · rw [if_pos hopen, if_pos hopen]
    simp only [hopen, true_and]
    exact recvLoop_delivers hs
  · obtain ⟨h', hfree, hs'⟩ := free_only hs
    rw [if_neg hopen, if_neg hopen, hfree]
    exact ⟨none, h', rfl, rfl, .refused (fun hboth => hopen hboth.1) hs'⟩

theorem receive_eq {conn : Int} {w : Worker} {result : Option (Nat × RecvBuffer)} {h' : Heap}
    (hr : receive mode conn p w h = .ok (result, p', h')) :
    MinhServer.receive mode conn p w = (result.map Prod.snd, p') := by
  obtain ⟨result', h'', hrun, hbuffer, -⟩ := @receive_delivers mode p conn w h
  rw [hr] at hrun
  cases hrun
  rw [hbuffer]

end Receive

/-- The copies of the method and of the path, when they were found. -/
def detectedBlocks (info : ProtocolInfo) : Nat := if info.method.isSome then 2 else 0

section Detect

theorem parseHttpHeader_method (line : Bytes) (colon : Nat) (info : ProtocolInfo) :
    (parseHttpHeader line colon info).method = info.method := by
  unfold parseHttpHeader
  dsimp only
  split_ifs <;> rfl

theorem parseHttpHeaders_method (ptr : Bytes) (len : Nat) (info : ProtocolInfo) :
    (parseHttpHeaders ptr len info).method = info.method := by
  induction ptr, len, info using parseHttpHeaders.induct with
  | case1 ptr info => rw [parseHttpHeaders, if_pos rfl]
  | case2 ptr len info hlen hend => rw [parseHttpHeaders_of_none hend]
  | case3 ptr len info hlen hend => rw [parseHttpHeaders_of_blank hend]
  | case4 ptr len info hlen lineEnd hend hne read ih =>
    have hline : (scanLine ptr lineEnd info).method = info.method := by
      unfold scanLine
      split
      · split
        · exact parseHttpHeader_method _ _ _
        · rfl
      · rfl
    rw [parseHttpHeaders_of_some hlen hend hne]
    exact ih.trans hline

theorem parseHttpRequestLine_method {line : Bytes} {info info' : ProtocolInfo}
    (h : MinhServer.parseHttpRequestLine line info = some info') : info'.method.isSome := by
  unfold MinhServer.parseHttpRequestLine at h
  split at h
  · cases h
    rfl
  · cases h

theorem detectProtocol_leaves (data : Bytes) (len : Nat) (h : Heap) :
    (detectProtocol data len h).1 = MinhServer.detectProtocol data len ∧
      h.Holds ∅ (detectedBlocks (MinhServer.detectProtocol data len))
        (detectProtocol data len h).2 := by
  have hs : h.Holds ∅ 0 h := .refl h
  have hmethod := leave_only (malloc_only hs)
  have hcopies : h.Holds ∅ 2 h.malloc.2.malloc.2 := leave_only (malloc_only hmethod)
  unfold detectProtocol MinhServer.detectProtocol
  cases hend : strstr (cstr data) [13, 10] with
  | none =>
    dsimp only
    split_ifs
    all_goals exact ⟨rfl, hs⟩
  | some lineLen =>
    dsimp only
    rw [parseHttpRequestLine]
    cases hline : MinhServer.parseHttpRequestLine (data.take lineLen) { type := .http } with
    | none =>
      dsimp only
      split_ifs
      all_goals exact ⟨rfl, hs⟩
    | some info =>
      have hfound : detectedBlocks (parseHttpHeaders data len info) = 2 := by
        rw [detectedBlocks, parseHttpHeaders_method, parseHttpRequestLine_method hline]
        rfl
      dsimp only
      split_ifs
      · exact ⟨rfl, hs⟩
      · exact ⟨rfl, hs⟩
      · exact ⟨rfl, hs⟩
      · exact ⟨rfl, hfound ▸ hcopies⟩
      · exact ⟨rfl, hs⟩
      · exact ⟨rfl, hs⟩
end Detect

def behindHead (request : Bytes) : Bytes :=
  match strstr (cstr request) headEnd with
  | none => []
  | some headerEndPos => (cstr request).drop (headerEndPos + 4)

/-- The copy of a request that was not parsed to its end. -/
def parsedBlocks (request : Bytes) (code : Int) : Nat :=
  if code < 0 ∨ behindHead request = [] then 1 else 0

section Parse
variable {h : Heap} {req : HttpRequest}

theorem plain_mirrors {α : Type} (x : Except Fault α) : Mirrors Crash.fault Eq x (plain x) :=
  Mirrors.mapError x

theorem parseLines_pass {newLine : Bytes} {left lineLen i k : Nat} (req : HttpRequest) (h : Heap)
    (hleft : left ≠ 0) (hline : strstr newLine crlf = some lineLen) :
    parseLines newLine left i k req h =
      (plain (if i = 1 then parseRequestLine (newLine.take lineLen) req
        else parseHeaderLine (newLine.take lineLen) k req)).bind fun req =>
      (free h.malloc.1 h.malloc.2).bind fun h =>
      parseLines (newLine.drop (lineLen + 2)) (left - (lineLen + 2)) (i + 1)
        (if i = 1 then k else k + 1) req h := by
  rw [parseLines, if_neg hleft]
  split
  · next hnone =>
    rw [hline] at hnone
    cases hnone
  · next hsome =>
    rw [hline] at hsome
    cases hsome
    rfl

theorem parseLines_mirrors (newLine : Bytes) (left i k : Nat) (req : HttpRequest) (h : Heap) :
    Mirrors Crash.fault (fun req result => result.1 = req ∧ h.Holds ∅ 0 result.2)
      (MinhServer.parseLines newLine left i k req) (parseLines newLine left i k req h) := by
  induction hsize : newLine.length using Nat.strong_induction_on
    generalizing newLine left i k req h with
  | _ size ih =>
  by_cases hleft : left = 0
  · rw [parseLines, MinhServer.parseLines, if_pos hleft, if_pos hleft]
    exact .ok ⟨rfl, .refl h⟩
  cases hline : strstr newLine crlf with
  | none =>
    have hplain : MinhServer.parseLines newLine left i k req = .error .badPointer := by
      rw [MinhServer.parseLines, if_neg hleft]
      split
      · rfl
      · simp_all
    have hheap : parseLines newLine left i k req h = .error (.fault .badPointer) := by
      rw [parseLines, if_neg hleft]
      split
      · rfl
      · simp_all
    rw [hplain, hheap]
    exact .error _
  | some lineLen =>
    have hend := strstr_end_le (by decide) hline
    simp only [crlf, List.length_cons, List.length_nil] at hend
    obtain ⟨h₁, hfree, hs₁⟩ := malloc_free (.refl h)
    have hrest : ∀ i k req, Mirrors Crash.fault
        (fun req result => result.1 = req ∧ h.Holds ∅ 0 result.2)
        (MinhServer.parseLines (newLine.drop (lineLen + 2)) (left - (lineLen + 2)) i k req)
        (parseLines (newLine.drop (lineLen + 2)) (left - (lineLen + 2)) i k req h₁) := by
      intro i k req
      refine (ih _ ?_ _ _ i k req h₁ rfl).mono ?_
      · rw [List.length_drop]
        omega
      · rintro req' result ⟨rfl, hs⟩
        exact ⟨rfl, hs₁.later hs⟩
    rw [parseLines_pass req h hleft hline, parseLines_step hleft hline]
    by_cases hi : i = 1
    · rw [if_pos hi, if_pos hi, if_pos hi]
      refine (plain_mirrors _).bind ?_
      rintro req' _ rfl
      rw [hfree]
      exact hrest _ _ _
    · rw [if_neg hi, if_neg hi, if_neg hi]
      refine (plain_mirrors _).bind ?_
      rintro req' _ rfl
      rw [hfree]
      exact hrest _ _ _

theorem parseHttpRequest_mirrors (request : Bytes) (req : HttpRequest) (h : Heap) :
    Mirrors Crash.fault
      (fun parsed result => result.1 = parsed.1 ∧ result.2.1 = parsed.2 ∧
        h.Holds result.2.2.1.toFinset (parsedBlocks request parsed.1) result.2.2.2)
      (MinhServer.parseHttpRequest request req) (parseHttpRequest request req h) := by
  have hcopy := malloc_only (.refl h)
  have hminus : (-1 : Int) < 0 := by decide
  unfold parseHttpRequest MinhServer.parseHttpRequest parsedBlocks behindHead
  cases hend : strstr (cstr request) headEnd with
  | none =>
    dsimp only
    rw [hend]
    exact .ok ⟨rfl, rfl, leave_only hcopy⟩
  | some headerEndPos =>
    dsimp only
    rw [hend]
    refine (parseLines_mirrors _ _ _ _ _ _).bind ?_
    rintro _ ⟨req', h₂⟩ ⟨rfl, hs₂⟩
    have hs := hcopy.later hs₂
    obtain ⟨h₃, hfree, hs₃⟩ := free_only hs
    dsimp only
    rw [parseBody]
    by_cases hbody : (cstr request).drop (headerEndPos + 4) = []
    · rw [if_pos hbody, if_pos hbody]
      refine .ok ⟨rfl, rfl, ?_⟩
      rw [if_pos (.inr hbody)]
      exact leave_only hs
    rw [if_neg hbody, if_neg hbody]
    cases req'.contentLengthSlot with
    | none =>
      dsimp only
      rw [hfree]
      refine .ok ⟨rfl, rfl, ?_⟩
      rw [if_neg (by simp [hbody])]
      exact hs₃
    | some slot =>
      dsimp only
      cases slot.bodyLength with
      | none =>
        refine .ok ⟨rfl, rfl, ?_⟩
        rw [if_pos (.inl hminus)]
        exact leave_only hs
      | some bodyLength =>
        dsimp only
        by_cases hlength : bodyLength ≠ ((cstr request).drop (headerEndPos + 4)).length
        · rw [if_pos hlength, if_pos hlength]
          refine .ok ⟨rfl, rfl, ?_⟩
          rw [if_pos (.inl hminus)]
          exact leave_only hs
        · rw [if_neg hlength, if_neg hlength]
          obtain ⟨h₄, hfree, hs₄⟩ := free_older hs (malloc_only (.refl h₂))
          rw [hfree]
          refine .ok ⟨rfl, rfl, ?_⟩
          rw [if_neg (by simp [hbody]), Option.toFinset_some]
          exact hs₄

end Parse

/-- What the answer to a parsed request leaves: the type of a file that is opened, or the name of
one that cannot be read. -/
def answeredBlocks (homeDir : Bytes) (disk : Disk) (req : HttpRequest) : Nat :=
  if route req = .get then
    match requestPath req.path with
    | none => 0
    | some path =>
      if disk.readable (homeDir ++ path.bytes) ∧ (disk.fopen (homeDir ++ path.bytes)).isNone then 0
      else 1
  else 0

section Answer
variable {conn : Int} {req : HttpRequest} {homeDir filepath : Bytes} {disk : Disk} {w : Worker}

theorem sendStaticFile_mirrors (conn : Int) (req : HttpRequest) (filepath : Bytes) (disk : Disk)
    (w : Worker) (h : Heap) :
    Mirrors Crash.fault
      (fun w' result => result.1 = w' ∧
        h.Holds ∅ (if (disk.fopen filepath).isNone then 0 else 1) result.2)
      (MinhServer.sendStaticFile conn req filepath disk w)
      (sendStaticFile conn req filepath disk w h) := by
  have hreturn : ∀ n h', h.Holds ∅ n h' → Mirrors Crash.fault
      (fun w' result => result.1 = w' ∧ h.Holds ∅ n result.2)
      (MinhServer.sendStaticFile conn req filepath disk w)
      ((plain (MinhServer.sendStaticFile conn req filepath disk w)).bind fun w => .ok (w, h')) := by
    intro n h' hs
    refine (plain_mirrors _).bind_right ?_
    rintro w' _ rfl
    exact .ok ⟨rfl, hs⟩
  unfold sendStaticFile
  cases disk.fopen filepath with
  | none => exact hreturn 0 h (.refl h)
  | some file => exact hreturn 1 _ (leave_only (malloc_only (.refl h)))

theorem handleGetRequest_mirrors (conn : Int) (req : HttpRequest) (homeDir : Bytes) (disk : Disk)
    (w : Worker) (h : Heap) (hroute : route req = .get) :
    Mirrors Crash.fault
      (fun answered result => result.1 = answered.1 ∧ result.2.1 = answered.2 ∧
        h.Holds ∅ (answeredBlocks homeDir disk req) result.2.2)
      (MinhServer.handleGetRequest conn req homeDir disk w)
      (handleGetRequest conn req homeDir disk w h) := by
  unfold answeredBlocks
  rw [if_pos hroute]
  cases hpath : requestPath req.path with
  | none =>
    rw [handleGetRequest, MinhServer.handleGetRequest, hpath]
    exact .error _
  | some path =>
    have hhome := malloc_only (.refl h)
    rw [handleGetRequest, MinhServer.handleGetRequest, hpath]
    dsimp only
    by_cases hreadable : disk.readable (homeDir ++ path.bytes) = true
    · rw [if_pos hreadable, if_pos hreadable]
      refine (sendStaticFile_mirrors _ _ _ _ _ _).bind ?_
      rintro _ ⟨w', h₂⟩ ⟨rfl, hs₂⟩
      obtain ⟨h₃, hfree, hs₃⟩ := free_only (hhome.later hs₂)
      rw [hfree]
      refine .ok ⟨rfl, rfl, ?_⟩
      rw [Nat.zero_add] at hs₃
      simpa only [hreadable, true_and] using hs₃
    · rw [if_neg hreadable, if_neg hreadable]
      refine .ok ⟨rfl, rfl, ?_⟩
      rw [if_neg (fun hboth => hreadable hboth.1)]
      exact leave_only hhome

theorem answer_mirrors (conn : Int) (req : HttpRequest) (homeDir : Bytes) (disk : Disk)
    (w : Worker) (h : Heap) :
    Mirrors Crash.fault
      (fun answered result => result.1 = answered.1 ∧ result.2.1 = answered.2 ∧
        h.Holds ∅ (answeredBlocks homeDir disk req) result.2.2)
      (MinhServer.answer conn req homeDir disk w) (answer conn req homeDir disk w h) := by
  have hstays : route req ≠ .get → h.Holds ∅ (answeredBlocks homeDir disk req) h := by
    intro hroute
    rw [answeredBlocks, if_neg hroute]
    exact .refl h
  unfold answer MinhServer.answer
  cases hroute : route req with
  | get => exact handleGetRequest_mirrors conn req homeDir disk w h hroute
  | post => exact .ok ⟨rfl, rfl, hstays (by simp [hroute])⟩
  | head => exact .ok ⟨rfl, rfl, hstays (by simp [hroute])⟩
  | notImplemented => exact .ok ⟨rfl, rfl, hstays (by simp [hroute])⟩

end Answer

/-- What a request leaves that is handed to `handleHttpRequest`. -/
def handledBlocks (homeDir : Bytes) (disk : Disk) (text : Bytes) : Nat :=
  match MinhServer.parseHttpRequest text .zeroed with
  | .error _ => 0
  | .ok (code, req) =>
    parsedBlocks text code + if code < 0 then 0 else answeredBlocks homeDir disk req

section Handle
variable {conn : Int} {req req' : HttpRequest} {homeDir filepath : Bytes} {disk : Disk}
  {w w' : Worker}

theorem sendStaticFile_body (hbody : w.res.body = none)
    (h : MinhServer.sendStaticFile conn req filepath disk w = .ok w') : w'.res.body = none := by
  unfold MinhServer.sendStaticFile at h
  split at h
  · cases h
    exact (congrArg HttpResponse.body (OnlySends.errorResponse conn 404 _ w).res).trans hbody
  · dsimp only at h
    split at h
    · cases h
    · split at h
      · cases h
        exact congrArg HttpResponse.body
          ((OnlySends.send conn _ _).trans (OnlySends.fileData conn _ _)).res
      · cases h
        exact congrArg HttpResponse.body
          ((OnlySends.send conn _ _).trans (OnlySends.errorResponse conn 404 _ _)).res

theorem answer_body (hbody : w.res.body = none)
    (h : MinhServer.answer conn req homeDir disk w = .ok (req', w')) : w'.res.body = none := by
  rcases answer_cases h with ⟨-, hget⟩ | ⟨-, -, rfl⟩ | ⟨-, -, rfl⟩
  · obtain ⟨path, -, -, ⟨-, rfl⟩ | ⟨-, hsend⟩⟩ := handleGetRequest_cases hget
    · exact (congrArg HttpResponse.body (OnlySends.errorResponse conn 404 _ w).res).trans hbody
    · exact sendStaticFile_body hbody hsend
  · exact hbody
  · exact (congrArg HttpResponse.body (OnlySends.errorResponse conn 501 _ w).res).trans hbody

theorem handleHttpRequest_mirrors (conn : Int) (text homeDir : Bytes) (disk : Disk)
    (hbody : w.res.body = none) (h : Heap) :
    Mirrors Crash.fault
      (fun handled result => result.1 = handled.1 ∧ result.2.2.1 = handled.2 ∧
        handled.2.res.body = none ∧
        h.Holds result.2.1.toFinset (handledBlocks homeDir disk text) result.2.2.2)
      (MinhServer.handleHttpRequest conn .zeroed text homeDir disk w)
      (handleHttpRequest conn .zeroed text homeDir disk w h) := by
  have hparsed := parseHttpRequest_mirrors text .zeroed h
  unfold handledBlocks handleHttpRequest MinhServer.handleHttpRequest
  cases hparse : MinhServer.parseHttpRequest text .zeroed with
  | error fault =>
    rw [hparse] at hparsed
    rw [hparsed.eq_error]
    exact .error fault
  | ok parsed =>
    obtain ⟨code, parsed⟩ := parsed
    rw [hparse] at hparsed
    obtain ⟨⟨code, parsed, body, h₁⟩, hrun, rfl, rfl, hs₁⟩ := hparsed.exists_ok
    rw [hrun, ok_bind, ok_bind]
    dsimp only at hs₁ ⊢
    split
    · refine .ok ⟨rfl, rfl, ?_, hs₁⟩
      exact (congrArg HttpResponse.body (OnlySends.errorResponse conn 400 _ w).res).trans hbody
    · have hanswered := answer_mirrors conn parsed homeDir disk w h₁
      cases hanswer : MinhServer.answer conn parsed homeDir disk w with
      | error fault =>
        rw [hanswer] at hanswered
        rw [hanswered.eq_error]
        exact .error fault
      | ok answered =>
        obtain ⟨req', w'⟩ := answered
        rw [hanswer] at hanswered
        obtain ⟨⟨req', w', h₂⟩, hrun, rfl, rfl, hs₂⟩ := hanswered.exists_ok
        have hres := answer_body hbody hanswer
        rw [hrun, ok_bind, ok_bind]
        dsimp only at hs₂ hres ⊢
        rw [freeHttpResponse, hres, ok_bind]
        refine .ok ⟨rfl, rfl, ?_, hs₁.later hs₂⟩
        dsimp only
        split
        · exact hres
        · exact hres

end Handle

end MinhServer.Allocating
