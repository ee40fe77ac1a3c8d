import Mathlib.Data.List.Chain
import MinhServer.Classification
import MinhServer.Library.Pointer

namespace MinhServer.Checked
open CString Memory Pointer

/-- A pass of the header loop: the pointer, the end of the line, and where a colon is used the
colon and the start of the value. -/
structure HeaderPass where
  ptr : Nat
  lineEnd : Nat
  field : Option (Nat × Nat)
  deriving DecidableEq, Repr

/-- The passes of the loop, and the pointer when it stops. -/
structure HeaderTrace where
  passes : List HeaderPass
  stop : Nat
  deriving DecidableEq, Repr

/-- The arrays `method`, `path` and `version` have room for the tokens. -/
def parseHttpRequestLine (line : Bytes) (info : ProtocolInfo) : Option (Option ProtocolInfo) :=
  let tokens := sscanf requestLineFormat line
  if (tokens.zip [16, 1024, 16]).all fun (token, size) => token.length < size then
    some (MinhServer.parseHttpRequestLine line info)
  else none

/-- The comparisons of a field name, with `char value[256]` and `char length_str[32]`. -/
def headerField (mem : Bytes) (ptr nameLen valueStart valueLen : Nat) (info : ProtocolInfo) :
    Option ProtocolInfo := do
  if ← compareAt mem ptr (ascii "Upgrade") nameLen then
    if ← compareAt mem valueStart (ascii "websocket") valueLen then
      some { info with type := .websocket }
    else some info
  else if ← compareAt mem ptr (ascii "Connection") nameLen then
    -- the value is copied and searched for "upgrade", and the result not used
    let value ← copyInto 256 mem valueStart (if valueLen < 255 then valueLen else 255)
    (stringAt value 0).map fun _ => info
  else if ← compareAt mem ptr (ascii "Sec-WebSocket-Key") nameLen then
    some { info with type := .websocket }
  else if ← compareAt mem ptr (ascii "Sec-WebSocket-Version") nameLen then
    some { info with type := .websocket }
  else if ← compareAt mem ptr (ascii "Content-Length") nameLen then
    let lengthStr ← copyInto 32 mem valueStart (if valueLen < 31 then valueLen else 31)
    (stringAt lengthStr 0).map fun digits => { info with contentLength := scanInt digits }
  else some info

/-- A line that ends at `lineEnd`; `text` is the string at `ptr`. -/
def headerLine (mem : Bytes) (ptr : Nat) (text : Bytes) (lineEnd : Nat) (info : ProtocolInfo) :
    Option (Option (Nat × Nat) × ProtocolInfo) :=
  match (strchr text 58).map (ptr + ·) with
  | none => some (none, info)
  | some colon =>
    if colon < lineEnd then do
      let nameLen ← lengthBetween ptr colon
      let valueStart ← skip 32 mem (colon + 1) lineEnd
      let valueLen ← lengthBetween valueStart lineEnd
      let info ← headerField mem ptr nameLen valueStart valueLen info
      some (some (colon, valueStart), info)
    else some (none, info)

def parseHttpHeaders (mem : Bytes) (len ptr : Nat) (info : ProtocolInfo) :
    Option (ProtocolInfo × HeaderTrace) :=
  if len ≤ ptr then some (info, ⟨[], ptr⟩)
  else
    match _ht : stringAt mem ptr with
    | none => none
    | some text =>
      match _hl : strstr text [13, 10] with
      | none => some (info, ⟨[], ptr⟩)
      | some n =>
        if n = 0 then some (info, ⟨[], ptr⟩)
        else do
          let lineEnd := ptr + n
          let (field, info) ← headerLine mem ptr text lineEnd info
          let (info, trace) ← parseHttpHeaders mem len (lineEnd + 2) info
          some (info, ⟨⟨ptr, lineEnd, field⟩ :: trace.passes, trace.stop⟩)
termination_by mem.length - ptr
decreasing_by
  have := strstr_end_le (by decide) _hl
  have := length_stringAt_le _ht
  simp only [List.length_cons, List.length_nil] at *
  omega

def detectMqttProtocol (mem : Bytes) (len : Nat) : Option Bool :=
  if len < 2 then some false
  else do
    let firstByte ← byteAt mem 0
    if firstByte &&& 0x0F ≠ 0 then some false
    else if (firstByte >>> 4) &&& 0x0F = 1 ∧ 8 ≤ len then do
      if (← byteAt mem 2) = 0 ∧ (← byteAt mem 3) = 4 then
        (load mem 4 4).map fun name => name = ascii "MQTT"
      else some false
    else some false

def detectSslTlsProtocol (mem : Bytes) (len : Nat) : Option Bool :=
  if len < 5 then some false
  else do
    let contentType ← byteAt mem 0
    -- the version is read and not used
    let _ ← load mem 1 2
    if contentType = 0x16 ∧ 5 < len then (byteAt mem 5).map fun handshake => handshake = 1
    else some false

def isTextProtocol (mem : Bytes) (len : Nat) : Option Bool :=
  (load mem 0 (min len 100)).map fun bytes => bytes.all isTextByte

/-- The part of `detectProtocol` for a text, with `char request_line[1024]`; there is a trace when
the loop over the header lines was entered. -/
def detectText (mem : Bytes) (len : Nat) (info : ProtocolInfo) :
    Option (ProtocolInfo × Option HeaderTrace) := do
  match strstr (← stringAt mem 0) [13, 10] with
  | none => some (info, none)
  | some lineLen =>
    if lineLen < 1024 then do
      let requestLine ← copyInto 1024 mem 0 lineLen
      match ← parseHttpRequestLine (← stringAt requestLine 0) info with
      | none => some (info, none)
      | some info => do
        let (info, trace) ← parseHttpHeaders mem len 0 info
        some (info, some trace)
    else some (info, none)

def detectProtocol (mem : Bytes) (len : Nat) : Option (ProtocolInfo × Option HeaderTrace) :=
  let info : ProtocolInfo := {}
  if len = 0 then some (info, none)
  else do
    if ← detectMqttProtocol mem len then some ({ info with type := .mqtt }, none)
    else if ← detectSslTlsProtocol mem len then
      some ({ info with type := .sslTls, isSecure := true }, none)
    else if ← isTextProtocol mem len then detectText mem len { info with type := .http }
    else some (info, none)

section Prefixes
variable {s : Bytes}

theorem detectMqttProtocol_eq :
    detectMqttProtocol (s ++ [0]) s.length = some (MinhServer.detectMqttProtocol s s.length) := by
  unfold detectMqttProtocol MinhServer.detectMqttProtocol
  split
  · rfl
  · next hlen =>
    have hpos : 0 < s.length := by omega
    have hfirst : s.headD 0 = s[0] := by
      cases s with
      | nil => simp at hpos
      | cons b t => rfl
    rw [byteAt_terminated hpos, Option.bind_eq_bind, Option.bind_some, hfirst]
    dsimp only
    split
    · rfl
    · by_cases hconnect : (s[0] >>> 4) &&& 0x0F = 1 ∧ 8 ≤ s.length
      · obtain ⟨htype, hlong⟩ := hconnect
        have h2 : s[2]? = some s[2] := List.getElem?_eq_getElem (by omega)
        have h3 : s[3]? = some s[3] := List.getElem?_eq_getElem (by omega)
        rw [if_pos ⟨htype, hlong⟩, byteAt_terminated (by omega), byteAt_terminated (by omega),
          load_terminated (by omega), h2, h3]
        simp only [Option.bind_some, Option.map_some, htype, hlong, true_and, Option.some.injEq]
        by_cases hname : s[2] = 0 ∧ s[3] = 4
        · simp [hname]
        · rw [if_neg hname]
          simp only [Option.some.injEq, false_eq_decide_iff]
          tauto
      · rw [if_neg hconnect]
        simp only [Option.some.injEq, false_eq_decide_iff]
        tauto

theorem detectSslTlsProtocol_eq :
    detectSslTlsProtocol (s ++ [0]) s.length =
      some (MinhServer.detectSslTlsProtocol s s.length) := by
  unfold detectSslTlsProtocol MinhServer.detectSslTlsProtocol
  split
  · rfl
  · next hlen =>
    have h0 : s[0]? = some s[0] := List.getElem?_eq_getElem (by omega)
    rw [byteAt_terminated (by omega), load_terminated (by omega), h0]
    simp only [Option.bind_eq_bind, Option.bind_some]
    by_cases hrecord : s[0] = 0x16 ∧ 5 < s.length
    · obtain ⟨htype, hlong⟩ := hrecord
      have h5 : s[5]? = some s[5] := List.getElem?_eq_getElem (by omega)
      rw [if_pos ⟨htype, hlong⟩, byteAt_terminated hlong, h5]
      simp [htype, hlong]
    · rw [if_neg hrecord]
      simp only [Option.some.injEq, false_eq_decide_iff]
      tauto

theorem isTextProtocol_eq :
    isTextProtocol (s ++ [0]) s.length = some (MinhServer.isTextProtocol s s.length) := by
  rw [isTextProtocol, load_terminated (by omega)]
  rfl

end Prefixes

theorem parseHttpRequestLine_eq (line : Bytes) (info : ProtocolInfo) :
    parseHttpRequestLine line info = some (MinhServer.parseHttpRequestLine line info) := by
  refine if_pos ?_
  rw [requestLineFormat]
  rcases sscanf_width [.space, .str (some 1023), .space, .str (some 15)] 15 line with
    hnone | ⟨method, rest, hmethod, hrest⟩
  · rw [hnone]
    rfl
  rw [hrest, sscanf]
  rcases sscanf_width [.space, .str (some 15)] 1023 (rest.dropWhile isspace) with
    hnone | ⟨path, rest', hpath, hrest'⟩
  · rw [hnone]
    simp
    omega
  rw [hrest', sscanf]
  rcases sscanf_width [] 15 (rest'.dropWhile isspace) with
    hnone | ⟨version, rest'', hversion, hrest''⟩
  · rw [hnone]
    simp
    omega
  · rw [hrest'', sscanf]
    simp
    omega

section Lines
variable {s : Bytes} (h0 : 0 ∉ s)
include h0

theorem copyInto_value (start len k : Nat) (h : start + len ≤ s.length) :
    (copyInto (k + 1) (s ++ [0]) start (if len < k then len else k)).bind (stringAt · 0) =
      some (((s.drop start).take len).take k) := by
  have hfits : (if len < k then len else k) < k + 1 := by split <;> omega
  have hcut : (s.drop start).take (if len < k then len else k) =
      ((s.drop start).take len).take k := by
    rw [List.take_take]
    congr 1
    split <;> omega
  have hstring : 0 ∉ ((s.drop start).take len).take k := fun hmem =>
    h0 (List.mem_of_mem_drop (List.mem_of_mem_take (List.mem_of_mem_take hmem)))
  have hroom : start + (if len < k then len else k) ≤ s.length := by split <;> omega
  rw [copyInto_terminated hroom hfits, hcut, Option.bind_some,
    stringAt_terminated hstring (Nat.zero_le _), List.drop_zero]

variable {ptr n : Nat} (hn : ptr + n ≤ s.length)
include hn

/-- A field whose name ends before the line does, and whose value is inside of it. -/
theorem headerField_eq {nameLen valueStart : Nat} (hname : nameLen < n)
    (hstart : valueStart ≤ ptr + n)
    (hvalue : (s.drop valueStart).take (ptr + n - valueStart) =
      (((s.drop ptr).take n).drop (nameLen + 1)).dropWhile (· == 32)) (info : ProtocolInfo) :
    headerField (s ++ [0]) ptr nameLen valueStart (ptr + n - valueStart) info =
      some (parseHttpHeader ((s.drop ptr).take n) nameLen info) := by
  have hcompare : ∀ name, compareAt (s ++ [0]) ptr name nameLen =
      some (eqNoCase ((s.drop ptr).take n) name nameLen) := by
    intro name
    rw [compareAt_terminated name (by omega), eqNoCase, eqNoCase, List.take_take,
      Nat.min_eq_left hname.le]
  have hlength : ((s.drop valueStart).take (ptr + n - valueStart)).length =
      ptr + n - valueStart := by
    rw [List.length_take, List.length_drop]
    omega
  have hwhole : compareAt (s ++ [0]) valueStart (ascii "websocket") (ptr + n - valueStart) =
      some (eqNoCase ((s.drop valueStart).take (ptr + n - valueStart)) (ascii "websocket")
        (ptr + n - valueStart)) := by
    rw [compareAt_terminated _ (by omega), eqNoCase, eqNoCase, List.take_take, Nat.min_self]
  have hinside : valueStart + (ptr + n - valueStart) ≤ s.length := by omega
  unfold headerField parseHttpHeader
  simp only [← hvalue, hcompare, hwhole, hlength, Option.bind_eq_bind, Option.bind_some]
  split
  · split <;> rfl
  split
  · have hvalue := congrArg (Option.map fun _ => info) (copyInto_value h0 _ _ 255 hinside)
    rw [Option.map_bind] at hvalue
    exact hvalue
  split
  · rfl
  split
  · rfl
  split
  · have hdigits := congrArg
      (Option.map fun digits => { info with contentLength := scanInt digits })
      (copyInto_value h0 _ _ 31 hinside)
    rw [Option.map_bind] at hdigits
    exact hdigits
  · rfl

def FieldInside (ptr lineEnd : Nat) (field : Option (Nat × Nat)) : Prop :=
  ∀ colon valueStart, field = some (colon, valueStart) →
    ptr ≤ colon ∧ colon < lineEnd ∧ colon < valueStart ∧ valueStart ≤ lineEnd

theorem headerLine_eq (info : ProtocolInfo) : ∃ field,
    headerLine (s ++ [0]) ptr (s.drop ptr) (ptr + n) info =
      some (field, scanLine (s.drop ptr) n info) ∧ FieldInside ptr (ptr + n) field := by
  have hcstr : cstr (s.drop ptr) = s.drop ptr :=
    cstr_eq_self fun hmem => h0 (List.mem_of_mem_drop hmem)
  have hnone : FieldInside ptr (ptr + n) none := by
    intro colon valueStart h
    cases h
  unfold headerLine scanLine
  rw [hcstr]
  cases hcolon : strchr (s.drop ptr) 58 with
  | none => exact ⟨none, rfl, hnone⟩
  | some i =>
    simp only [Option.map_some]
    by_cases hi : i < n
    · rw [if_pos (by omega), if_pos hi]
      have hstart : ptr + i + 1 ≤ ptr + n := by omega
      obtain ⟨valueStart, hskip, hle, hend, hvalue⟩ := skip_terminated 32 hstart hn
      have hnameLen : lengthBetween ptr (ptr + i) = some i := by
        rw [lengthBetween, if_pos (Nat.le_add_right ptr i), Nat.add_sub_cancel_left]
      have hvalueLen : lengthBetween valueStart (ptr + n) = some (ptr + n - valueStart) :=
        if_pos hend
      have hrest : (s.drop (ptr + i + 1)).take (ptr + n - (ptr + i + 1)) =
          ((s.drop ptr).take n).drop (i + 1) := by
        rw [List.drop_take, List.drop_drop, Nat.add_assoc, Nat.add_sub_add_left]
      rw [hrest] at hvalue
      refine ⟨some (ptr + i, valueStart), ?_, ?_⟩
      · rw [hnameLen, hskip]
        simp only [Option.bind_eq_bind, Option.bind_some, hvalueLen,
          headerField_eq h0 hn hi hend hvalue info]
      · intro colon valueStart' h
        cases h
        omega
    · rw [if_neg (by omega), if_neg hi]
      exact ⟨none, rfl, hnone⟩

end Lines

/-- The values of the pointer at the loop condition. -/
def HeaderTrace.visits (trace : HeaderTrace) : List Nat :=
  trace.passes.map HeaderPass.ptr ++ [trace.stop]

/-- All passes are inside of `len` bytes, the pointer starts at `start`, grows with each pass and
never goes beyond the end. -/
structure HeaderTrace.Inside (start len : Nat) (trace : HeaderTrace) : Prop where
  passes : ∀ pass ∈ trace.passes, pass.ptr < pass.lineEnd ∧ pass.lineEnd < len ∧
    FieldInside pass.ptr pass.lineEnd pass.field
  starts : trace.visits.head? = some start
  increasing : trace.visits.IsChain (· < ·)
  bounded : ∀ ptr ∈ trace.visits, ptr ≤ len

section Loop
variable {s : Bytes}

theorem HeaderTrace.Inside.stopped {start len : Nat} (h : start ≤ len) :
    HeaderTrace.Inside start len ⟨[], start⟩ where
  passes := by simp
  starts := rfl
  increasing := by simp [HeaderTrace.visits]
  bounded := by simpa [HeaderTrace.visits] using h

/-- One pass more in front. -/
theorem HeaderTrace.Inside.pass {ptr lineEnd len : Nat} {field : Option (Nat × Nat)}
    {trace : HeaderTrace} (hptr : ptr < lineEnd) (hend : lineEnd < len)
    (hfield : FieldInside ptr lineEnd field) (h : trace.Inside (lineEnd + 2) len) :
    HeaderTrace.Inside ptr len ⟨⟨ptr, lineEnd, field⟩ :: trace.passes, trace.stop⟩ where
  passes := by
    intro pass hpass
    rcases List.mem_cons.mp hpass with rfl | hrest
    · exact ⟨hptr, hend, hfield⟩
    · exact h.passes pass hrest
  starts := rfl
  increasing := by
    change (ptr :: trace.visits).IsChain (· < ·)
    rw [List.isChain_cons]
    refine ⟨fun next hnext => ?_, h.increasing⟩
    rw [h.starts] at hnext
    cases hnext
    omega
  bounded := by
    change ∀ visit ∈ ptr :: trace.visits, visit ≤ len
    rw [List.forall_mem_cons]
    exact ⟨by omega, h.bounded⟩

section Equations
variable {mem text : Bytes} {len ptr n : Nat} {info : ProtocolInfo}

theorem parseHttpHeaders_at_end (h : len ≤ ptr) :
    parseHttpHeaders mem len ptr info = some (info, ⟨[], ptr⟩) := by
  rw [parseHttpHeaders, if_pos h]

theorem parseHttpHeaders_of_last (htext : stringAt mem ptr = some text)
    (h : ∀ n, strstr text [13, 10] = some n → n = 0) :
    parseHttpHeaders mem len ptr info = some (info, ⟨[], ptr⟩) := by
  rw [parseHttpHeaders]
  split
  · rfl
  split
  · next hnone =>
    rw [htext] at hnone
    cases hnone
  · next text' htext' =>
    cases htext'.symm.trans htext
    split
    · rfl
    · next n hn => exact if_pos (h n hn)

theorem parseHttpHeaders_of_some (hptr : ptr < len) (htext : stringAt mem ptr = some text)
    (h : strstr text [13, 10] = some n) (hn : n ≠ 0) :
    parseHttpHeaders mem len ptr info =
      (headerLine mem ptr text (ptr + n) info).bind fun result =>
        (parseHttpHeaders mem len (ptr + n + 2) result.2).map fun rest =>
          (rest.1, ⟨⟨ptr, ptr + n, result.1⟩ :: rest.2.passes, rest.2.stop⟩) := by
  rw [parseHttpHeaders, if_neg (not_le.mpr hptr)]
  split
  · next hnone =>
    rw [htext] at hnone
    cases hnone
  · next text' htext' =>
    cases htext'.symm.trans htext
    split
    · next hnone =>
      rw [h] at hnone
      cases hnone
    · next m hm =>
      cases hm.symm.trans h
      rw [if_neg hn]
      simp only [Option.bind_eq_bind, Option.map_eq_bind]
      rfl

end Equations

theorem parseHttpHeaders_eq (h0 : 0 ∉ s) {ptr : Nat} (h : ptr ≤ s.length) (info : ProtocolInfo) :
    ∃ trace, parseHttpHeaders (s ++ [0]) s.length ptr info =
      some (MinhServer.parseHttpHeaders (s.drop ptr) (s.length - ptr) info, trace) ∧
      trace.Inside ptr s.length := by
  induction hsize : s.length - ptr using Nat.strong_induction_on generalizing ptr info with
  | _ size ih =>
  subst hsize
  have hcstr : cstr (s.drop ptr) = s.drop ptr :=
    cstr_eq_self fun hmem => h0 (List.mem_of_mem_drop hmem)
  have htext : stringAt (s ++ [0]) ptr = some (s.drop ptr) := stringAt_terminated h0 h
  have hstopped : HeaderTrace.Inside ptr s.length ⟨[], ptr⟩ := .stopped h
  rcases Nat.lt_or_ge ptr s.length with hlt | hge
  · cases hend : strstr (s.drop ptr) [13, 10] with
    | none =>
      have hlast : parseHttpHeaders (s ++ [0]) s.length ptr info = some (info, ⟨[], ptr⟩) :=
        parseHttpHeaders_of_last htext (by simp [hend])
      rw [hlast, MinhServer.parseHttpHeaders_of_none (hcstr.symm ▸ hend)]
      exact ⟨_, rfl, hstopped⟩
    | some n =>
      by_cases hn : n = 0
      · subst hn
        have hlast : parseHttpHeaders (s ++ [0]) s.length ptr info = some (info, ⟨[], ptr⟩) :=
          parseHttpHeaders_of_last htext (by simp [hend])
        rw [hlast, MinhServer.parseHttpHeaders_of_blank (hcstr.symm ▸ hend)]
        exact ⟨_, rfl, hstopped⟩
      · -- the line and its CRLF lie before the terminator
        have hcrlf := strstr_end_le (by decide) hend
        simp only [List.length_cons, List.length_nil, List.length_drop] at hcrlf
        obtain ⟨field, hline, hfield⟩ := headerLine_eq h0 (show ptr + n ≤ s.length by omega) info
        obtain ⟨trace, hrest, hinside⟩ := ih (s.length - (ptr + n + 2)) (by omega)
          (show ptr + n + 2 ≤ s.length by omega) (scanLine (s.drop ptr) n info) rfl
        have hnext : MinhServer.parseHttpHeaders (s.drop ptr) (s.length - ptr) info =
            MinhServer.parseHttpHeaders (s.drop (ptr + n + 2)) (s.length - (ptr + n + 2))
              (scanLine (s.drop ptr) n info) := by
          rw [MinhServer.parseHttpHeaders_of_some (by omega) (hcstr.symm ▸ hend) hn, List.drop_drop,
            Nat.sub_sub]
          rfl
        refine ⟨⟨⟨ptr, ptr + n, field⟩ :: trace.passes, trace.stop⟩, ?_,
          hinside.pass (by omega) (by omega) hfield⟩
        rw [parseHttpHeaders_of_some hlt htext hend hn, hline, Option.bind_some, hrest,
          Option.map_some, hnext]
  · have hall : s.length - ptr = 0 := by omega
    rw [parseHttpHeaders_at_end hge, hall, MinhServer.parseHttpHeaders, if_pos rfl]
    exact ⟨_, rfl, hstopped⟩

end Loop

/-- The first line fits the array and is a request line. -/
def HasRequestLine (s : Bytes) (info : ProtocolInfo) : Prop :=
  ∃ n, strstr s [13, 10] = some n ∧ n < 1024 ∧
    (MinhServer.parseHttpRequestLine (s.take n) info).isSome = true

def ReachesHeaders (s : Bytes) : Prop :=
  MinhServer.detectMqttProtocol s s.length = false ∧
    MinhServer.detectSslTlsProtocol s s.length = false ∧
    MinhServer.isTextProtocol s s.length = true ∧ HasRequestLine s { type := .http }

section Detector
variable {s : Bytes} (h0 : 0 ∉ s)
include h0

/-- A text is taken apart inside of its allocation. -/
theorem detectText_eq (info : ProtocolInfo) : ∃ trace,
    detectText (s ++ [0]) s.length info = some (MinhServer.detectText s s.length info, trace) ∧
      (∀ t ∈ trace, t.Inside 0 s.length) ∧ (trace.isSome = true ↔ HasRequestLine s info) := by
  have htext : stringAt (s ++ [0]) 0 = some s := stringAt_terminated h0 (Nat.zero_le _)
  have hnone : ∀ t ∈ (none : Option HeaderTrace), t.Inside 0 s.length := by simp
  unfold detectText MinhServer.detectText
  rw [htext, Option.bind_eq_bind, Option.bind_some, cstr_eq_self h0]
  cases hend : strstr s [13, 10] with
  | none => exact ⟨none, rfl, hnone, by simp [HasRequestLine, hend]⟩
  | some n =>
    have hcrlf := strstr_end_le (by decide) hend
    simp only [List.length_cons, List.length_nil] at hcrlf
    by_cases hn : n < 1024
    · have hline : (copyInto 1024 (s ++ [0]) 0 n).bind (stringAt · 0) = some (s.take n) := by
        have hstring : 0 ∉ s.take n := fun hmem => h0 (List.mem_of_mem_take hmem)
        rw [copyInto_terminated (by omega) hn, List.drop_zero, Option.bind_some,
          stringAt_terminated hstring (Nat.zero_le _), List.drop_zero]
      obtain ⟨requestLine, hcopy, hstring⟩ := Option.bind_eq_some_iff.mp hline
      simp only [if_pos hn, hcopy, hstring, Option.bind_some, parseHttpRequestLine_eq]
      cases hparsed : MinhServer.parseHttpRequestLine (s.take n) info with
      | none => exact ⟨none, rfl, hnone, by simp [HasRequestLine, hend, hparsed]⟩
      | some info' =>
        obtain ⟨trace, hheaders, hinside⟩ := parseHttpHeaders_eq h0 (Nat.zero_le s.length) info'
        refine ⟨some trace, ?_, fun t ht => Option.some.inj ht ▸ hinside,
          by simp [HasRequestLine, hend, hn, hparsed]⟩
        change (parseHttpHeaders (s ++ [0]) s.length 0 info').bind _ = _
        rw [hheaders]
        rfl
    · simp only [if_neg hn]
      exact ⟨none, rfl, hnone, by simp [HasRequestLine, hend, hn]⟩

/-- The result is that of `detectProtocol`, and the header loop leaves a trace when the detector
gets to it. -/
theorem detectProtocol_eq : ∃ trace,
    detectProtocol (s ++ [0]) s.length = some (MinhServer.detectProtocol s s.length, trace) ∧
      (∀ t ∈ trace, t.Inside 0 s.length) ∧ (trace.isSome = true ↔ ReachesHeaders s) := by
  have hnone : ∀ t ∈ (none : Option HeaderTrace), t.Inside 0 s.length := by simp
  unfold detectProtocol MinhServer.detectProtocol ReachesHeaders
  dsimp only
  split
  · next hempty =>
    obtain rfl := List.length_eq_zero_iff.mp hempty
    exact ⟨none, rfl, hnone, by simp [HasRequestLine, strstr]⟩
  simp only [detectMqttProtocol_eq, detectSslTlsProtocol_eq, isTextProtocol_eq, Option.bind_eq_bind,
    Option.bind_some]
  split
  · next hmqtt => exact ⟨none, rfl, hnone, by simp [hmqtt]⟩
  split
  · next htls => exact ⟨none, rfl, hnone, by simp [htls]⟩
  split
  · next hmqtt htls htext =>
    obtain ⟨trace, hdetect, hinside, hentered⟩ := detectText_eq h0 { type := .http }
    exact ⟨trace, hdetect, hinside, by simp [hentered, hmqtt, htls, htext]⟩
  · next hbinary => exact ⟨none, rfl, hnone, by simp [hbinary]⟩

end Detector

/-- On every string with its terminator the detector returns, and every read and every copy of it
stays inside: it has the result of `detectProtocol`, and in the header loop the line ends and the
colons lie behind the pointer, which grows and never passes the end of the string. -/
theorem detection_stays_inside (data : Bytes) : ∃ trace,
    detectProtocol (cstr data ++ [0]) (cstr data).length =
      some (MinhServer.detectProtocol (cstr data) (cstr data).length, trace) ∧
      ∀ t ∈ trace, t.Inside 0 (cstr data).length := by
  obtain ⟨trace, hdetect, hinside, -⟩ := detectProtocol_eq (zero_notMem_cstr data)
  exact ⟨trace, hdetect, hinside⟩

end MinhServer.Checked
