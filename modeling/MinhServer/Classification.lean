import MinhServer.Http.Head

namespace MinhServer
open CString

/-- The lines before the first blank one, each of them ended by a CRLF. -/
def scannedLines (s : Bytes) : List Bytes :=
  match _h : strstr s [13, 10] with
  | none => []
  | some n => if n = 0 then [] else s.take n :: scannedLines (s.drop (n + 2))
termination_by s.length
decreasing_by
  have := strstr_end_le (by decide) _h
  simp only [List.length_cons, List.length_nil, List.length_drop] at *
  omega

/-- The header lines: the request line stands before them. -/
def headerLines (s : Bytes) : List Bytes := (scannedLines s).tail

def headerValue (line : Bytes) : Bytes :=
  (line.drop ((fieldName line).length + 1)).dropWhile (· == 32)

/-- The whole of `name` or a part of it from its start on, in any case. -/
def Abbreviates (given name : Bytes) : Prop := given.map tolower <+: name.map tolower

instance (given name : Bytes) : Decidable (Abbreviates given name) :=
  inferInstanceAs (Decidable (given.map tolower <+: name.map tolower))

/-- The lines that `parseHttpHeaders` takes for a WebSocket header: it compares no more of a
name or a value than the line has. -/
def ReadAsWebSocket (line : Bytes) : Prop :=
  58 ∈ line ∧
    if Abbreviates (fieldName line) (ascii "Upgrade") then
      Abbreviates (headerValue line) (ascii "websocket")
    else ¬ Abbreviates (fieldName line) (ascii "Connection") ∧
      (Abbreviates (fieldName line) (ascii "Sec-WebSocket-Key") ∨
        Abbreviates (fieldName line) (ascii "Sec-WebSocket-Version"))

instance (line : Bytes) : Decidable (ReadAsWebSocket line) := by
  unfold ReadAsWebSocket
  exact inferInstance

section Lines
variable {s : Bytes}

theorem scannedLines_of_none (h : strstr s [13, 10] = none) : scannedLines s = [] := by
  rw [scannedLines]
  split <;> simp_all

theorem scannedLines_of_blank (h : strstr s [13, 10] = some 0) : scannedLines s = [] := by
  rw [scannedLines]
  split <;> simp_all

theorem scannedLines_of_some {n : Nat} (h : strstr s [13, 10] = some n) (hn : n ≠ 0) :
    scannedLines s = s.take n :: scannedLines (s.drop (n + 2)) := by
  rw [scannedLines]
  split <;> simp_all

end Lines

theorem eqNoCase_iff {line name : Bytes} {n : Nat} (h : n ≤ line.length) :
    eqNoCase line name n = true ↔ Abbreviates (line.take n) name := by
  rw [eqNoCase, beq_iff_eq, Abbreviates, List.prefix_iff_eq_take]
  simp [h]

theorem fieldName_eq_take {line : Bytes} {colon : Nat} (h : strchr line 58 = some colon) :
    line.take colon = fieldName line := take_strchr h

theorem length_fieldName {line : Bytes} {colon : Nat} (h : strchr line 58 = some colon) :
    (fieldName line).length = colon := by
  have hlt := strchr_lt h
  rw [← fieldName_eq_take h, List.length_take]
  omega

theorem parseHttpHeader_type {line : Bytes} {colon : Nat} (h : strchr line 58 = some colon)
    (info : ProtocolInfo) : (parseHttpHeader line colon info).type =
      if ReadAsWebSocket line then .websocket else info.type := by
  have hmem : 58 ∈ line := by
    by_contra hno
    rw [strchr_eq_none_iff.mpr hno] at h
    cases h
  have hvalue : (line.drop (colon + 1)).dropWhile (· == 32) = headerValue line := by
    rw [headerValue, length_fieldName h]
  have hread : ∀ name, eqNoCase line name colon = true ↔ Abbreviates (fieldName line) name := by
    intro name
    rw [eqNoCase_iff (strchr_lt h).le, fieldName_eq_take h]
  have hwhole : eqNoCase (headerValue line) (ascii "websocket") (headerValue line).length = true ↔
      Abbreviates (headerValue line) (ascii "websocket") := by
    rw [eqNoCase_iff le_rfl, List.take_length]
  unfold parseHttpHeader
  simp only [hvalue, hread, hwhole, ReadAsWebSocket, hmem, true_and]
  by_cases hu : Abbreviates (fieldName line) (ascii "Upgrade")
  · simp only [if_pos hu]
    split <;> rfl
  · simp only [if_neg hu]
    by_cases hc : Abbreviates (fieldName line) (ascii "Connection")
    · simp [hc]
    · by_cases hk : Abbreviates (fieldName line) (ascii "Sec-WebSocket-Key")
      · simp [hc, hk]
      · by_cases hv : Abbreviates (fieldName line) (ascii "Sec-WebSocket-Version")
        · simp [hc, hk, hv]
        · simp only [hc, hk, hv, if_false, or_self, and_false]
          split <;> rfl

section Headers
variable {ptr : Bytes} {len n : Nat} {info : ProtocolInfo}

/-- The effect of the line that ends at `n`. -/
def scanLine (ptr : Bytes) (n : Nat) (info : ProtocolInfo) : ProtocolInfo :=
  match strchr (cstr ptr) 58 with
  | some colon => if colon < n then parseHttpHeader (ptr.take n) colon info else info
  | none => info

theorem scanLine_type (h : n ≤ (cstr ptr).length) (info : ProtocolInfo) :
    (scanLine ptr n info).type =
      if ReadAsWebSocket ((cstr ptr).take n) then .websocket else info.type := by
  have hcolon := strchr_take (cstr ptr) 58 n
  unfold scanLine
  cases hs : strchr (cstr ptr) 58 with
  | none =>
    rw [hs, Option.bind_none, strchr_eq_none_iff] at hcolon
    simp [ReadAsWebSocket, hcolon]
  | some colon =>
    rw [hs, Option.bind_some] at hcolon
    dsimp only
    split
    · next hlt =>
      rw [← take_cstr h, parseHttpHeader_type]
      rw [hcolon, Option.guard_eq_some_iff]
      simp [hlt]
    · next hlt =>
      rw [Option.guard_eq_none_iff.mpr (by simpa using hlt), strchr_eq_none_iff] at hcolon
      simp [ReadAsWebSocket, hcolon]

theorem parseHttpHeaders_of_none (h : strstr (cstr ptr) [13, 10] = none) :
    parseHttpHeaders ptr len info = info := by
  rw [parseHttpHeaders]
  split
  · rfl
  · split <;> simp_all

theorem parseHttpHeaders_of_blank (h : strstr (cstr ptr) [13, 10] = some 0) :
    parseHttpHeaders ptr len info = info := by
  rw [parseHttpHeaders]
  split
  · rfl
  · split <;> simp_all

theorem parseHttpHeaders_of_some (hlen : len ≠ 0) (h : strstr (cstr ptr) [13, 10] = some n)
    (hn : n ≠ 0) : parseHttpHeaders ptr len info =
      parseHttpHeaders (ptr.drop (n + 2)) (len - (n + 2)) (scanLine ptr n info) := by
  rw [parseHttpHeaders]
  split
  · contradiction
  · split
    · simp_all
    · next k hk =>
      cases hk.symm.trans h
      rw [if_neg hn]
      rfl

/-- The loop looks at the lines before the first blank one, and at the request line too. -/
theorem parseHttpHeaders_type (hlen : (cstr ptr).length ≤ len) (info : ProtocolInfo) :
    (parseHttpHeaders ptr len info).type =
      if ∃ line ∈ scannedLines (cstr ptr), ReadAsWebSocket line then .websocket
      else info.type := by
  induction hsize : ptr.length using Nat.strong_induction_on generalizing ptr len info with
  | _ size ih =>
  cases h : strstr (cstr ptr) [13, 10] with
  | none =>
    rw [parseHttpHeaders_of_none h, scannedLines_of_none h]
    simp
  | some n =>
    by_cases hn : n = 0
    · subst hn
      rw [parseHttpHeaders_of_blank h, scannedLines_of_blank h]
      simp
    · -- the pointer stays inside the string, so what it points at is the rest of the string
      have hend := strstr_end_le (by decide) h
      have hle := (cstr_isPrefix ptr).length_le
      simp only [List.length_cons, List.length_nil] at hend
      have hdrop : cstr (ptr.drop (n + 2)) = (cstr ptr).drop (n + 2) := cstr_drop (by omega)
      have hleft : (cstr (ptr.drop (n + 2))).length ≤ len - (n + 2) := by
        rw [hdrop, List.length_drop]
        omega
      have hrest := ih (ptr.drop (n + 2)).length (by rw [List.length_drop]; omega) hleft
        (scanLine ptr n info) rfl
      rw [parseHttpHeaders_of_some (by omega) h hn, hrest, scannedLines_of_some h hn, hdrop,
        scanLine_type (by omega)]
      simp only [List.mem_cons, exists_eq_or_imp]
      by_cases hhere : ReadAsWebSocket ((cstr ptr).take n)
      · simp [hhere]
      · simp [hhere]

end Headers

/-- The detector reads the request line: it has room for it and finds three tokens in it. -/
def ReadsRequestLine (s : Bytes) : Prop :=
  match scannedLines s with
  | [] => False
  | line :: _ => line.length < 1024 ∧ (sscanf requestLineFormat line).length = 3

instance (s : Bytes) : Decidable (ReadsRequestLine s) := by
  unfold ReadsRequestLine
  split <;> exact inferInstance

theorem not_readsRequestLine_of_nil {s : Bytes} (h : scannedLines s = []) :
    ¬ ReadsRequestLine s := by
  rw [ReadsRequestLine, h]
  exact id

theorem readsRequestLine_of_cons {s line : Bytes} {ls : List Bytes}
    (h : scannedLines s = line :: ls) :
    ReadsRequestLine s ↔ line.length < 1024 ∧ (sscanf requestLineFormat line).length = 3 := by
  rw [ReadsRequestLine, h]

def textType (s : Bytes) : ProtocolType :=
  if ReadsRequestLine s ∧ ∃ line ∈ scannedLines s, ReadAsWebSocket line then .websocket else .http

theorem textType_of_not_reads {s : Bytes} (h : ¬ ReadsRequestLine s) : textType s = .http :=
  if_neg fun hyes => h hyes.1

theorem textType_of_reads {s : Bytes} (h : ReadsRequestLine s) : textType s =
    if ∃ line ∈ scannedLines s, ReadAsWebSocket line then .websocket else .http := by
  simp only [textType, h, true_and]

theorem parseHttpRequestLine_isSome_iff {line : Bytes} {info : ProtocolInfo} :
    (parseHttpRequestLine line info).isSome ↔ (sscanf requestLineFormat line).length = 3 := by
  unfold parseHttpRequestLine
  split
  · next h => simp [h]
  · next h =>
    refine iff_of_false (by simp) fun h3 => ?_
    obtain ⟨method, path, version, hthree⟩ := List.length_eq_three.mp h3
    exact h _ _ _ hthree

theorem parseHttpRequestLine_type {line : Bytes} {info info' : ProtocolInfo}
    (h : parseHttpRequestLine line info = some info') : info'.type = info.type := by
  unfold parseHttpRequestLine at h
  split at h
  · simp only [Option.some.injEq] at h
    rw [← h]
  · cases h

/-- What `detectProtocol` does with a text. -/
def detectText (data : Bytes) (len : Nat) (info : ProtocolInfo) : ProtocolInfo :=
  match strstr (cstr data) [13, 10] with
  | some lineLen =>
    if lineLen < 1024 then
      match parseHttpRequestLine (data.take lineLen) info with
      | some info => parseHttpHeaders data len info
      | none => info
    else info
  | none => info

theorem detectText_type {data : Bytes} {len : Nat} (hlen : (cstr data).length ≤ len)
    {info : ProtocolInfo} (hinfo : info.type = .http) :
    (detectText data len info).type = textType (cstr data) := by
  unfold detectText
  cases h : strstr (cstr data) [13, 10] with
  | none =>
    rw [textType_of_not_reads (not_readsRequestLine_of_nil (scannedLines_of_none h))]
    exact hinfo
  | some n =>
    have hend := strstr_end_le (by decide) h
    have hlength : ((cstr data).take n).length = n := by
      rw [List.length_take]
      omega
    dsimp only
    rw [← take_cstr (by omega)]
    by_cases hn : n = 0
    · -- a text that begins with a blank line has no request line
      subst hn
      rw [textType_of_not_reads (not_readsRequestLine_of_nil (scannedLines_of_blank h))]
      exact hinfo
    have hreads := readsRequestLine_of_cons (scannedLines_of_some h hn)
    rw [hlength] at hreads
    have hparses : (parseHttpRequestLine ((cstr data).take n) info).isSome ↔ _ :=
      parseHttpRequestLine_isSome_iff
    split
    · next hshort =>
      cases hparse : parseHttpRequestLine ((cstr data).take n) info with
      | none =>
        rw [textType_of_not_reads fun hyes => ?_]
        · exact hinfo
        · rw [hparse, ← (hreads.mp hyes).2] at hparses
          simp at hparses
      | some info' =>
        have hyes := hreads.mpr ⟨hshort, hparses.mp (by rw [hparse]; rfl)⟩
        rw [textType_of_reads hyes, parseHttpHeaders_type hlen,
          parseHttpRequestLine_type hparse, hinfo]
    · next hlong =>
      rw [textType_of_not_reads fun hyes => hlong (hreads.mp hyes).1]
      exact hinfo

/-- An MQTT CONNECT: its type, and after a length of one byte the name of the protocol. -/
def IsMqttConnect (b : Bytes) : Prop :=
  b[0]? = some 0x10 ∧ (b.drop 2).take 6 = 0 :: 4 :: ascii "MQTT"

/-- A handshake record with a ClientHello. -/
def IsClientHello (b : Bytes) : Prop := b[0]? = some 0x16 ∧ b[5]? = some 1

def IsText (b : Bytes) : Prop := ∀ c ∈ b.take 100, isTextByte c = true

instance (b : Bytes) : Decidable (IsMqttConnect b) :=
  inferInstanceAs (Decidable (b[0]? = some 0x10 ∧ (b.drop 2).take 6 = 0 :: 4 :: ascii "MQTT"))

instance (b : Bytes) : Decidable (IsClientHello b) :=
  inferInstanceAs (Decidable (b[0]? = some 0x16 ∧ b[5]? = some 1))

instance (b : Bytes) : Decidable (IsText b) :=
  inferInstanceAs (Decidable (∀ c ∈ b.take 100, isTextByte c = true))

def classify (b : Bytes) : ProtocolType :=
  if b = [] then .unknown
  else if IsMqttConnect b then .mqtt
  else if IsClientHello b then .sslTls
  else if IsText b then textType (cstr b)
  else .unknown

theorem connect_flags (b : Byte) :
    b &&& 0x0F = 0 ∧ (b >>> 4) &&& 0x0F = 1 ↔ b = 0x10 := by
  cases b with
  | ofBitVec v =>
    revert v
    decide

theorem protocolName_iff (b : Bytes) : (b.drop 2).take 6 = 0 :: 4 :: ascii "MQTT" ↔
    b[2]? = some 0 ∧ b[3]? = some 4 ∧ (b.drop 4).take 4 = ascii "MQTT" := by
  have h2 : b[2]? = (b.drop 2)[0]? := by rw [List.getElem?_drop]
  have h3 : b[3]? = (b.drop 2)[1]? := by rw [List.getElem?_drop]
  have h4 : b.drop 4 = (b.drop 2).drop 2 := by rw [List.drop_drop]
  rw [h2, h3, h4]
  generalize b.drop 2 = t
  cases t with
  | nil => simp
  | cons x t =>
    cases t with
    | nil => simp
    | cons y t => simp

theorem detectMqttProtocol_iff {data : Bytes} {len : Nat} :
    detectMqttProtocol data len = true ↔ IsMqttConnect (data.take len) := by
  unfold detectMqttProtocol IsMqttConnect
  by_cases hlen : 8 ≤ len
  · have hname : ((data.take len).drop 2).take 6 = (data.drop 2).take 6 := by
      rw [List.drop_take, List.take_take, min_eq_left (by omega)]
    rw [hname, protocolName_iff, List.getElem?_take, if_pos (show 0 < len by omega),
      if_neg (show ¬ len < 2 by omega)]
    cases data with
    | nil => simp
    | cons b data =>
      have hflags := connect_flags b
      by_cases hflag : b &&& 0x0F = 0
      · simp only [hflag, true_and] at hflags
        simp [hflag, hflags, hlen]
      · simp only [hflag, false_and, false_iff] at hflags
        simp [hflag, hflags]
  · have hshort : ((data.take len).drop 2).take 6 ≠ 0 :: 4 :: ascii "MQTT" := by
      intro h
      have hl := congrArg List.length h
      simp [ascii] at hl
      omega
    simp [hshort, hlen]

theorem detectSslTlsProtocol_iff {data : Bytes} {len : Nat} :
    detectSslTlsProtocol data len = true ↔ IsClientHello (data.take len) := by
  unfold detectSslTlsProtocol IsClientHello
  rw [List.getElem?_take, List.getElem?_take]
  by_cases hlen : 5 < len
  · simp [hlen, show ¬ len < 5 by omega, show 0 < len by omega]
  · simp [hlen]

theorem isTextProtocol_iff {data : Bytes} {len : Nat} :
    isTextProtocol data len = true ↔ IsText (data.take len) := by
  rw [isTextProtocol, IsText, List.all_eq_true, List.take_take, min_comm]

theorem detectProtocol_type {data : Bytes} {len : Nat} (hlen : (cstr data).length ≤ len)
    (hdata : len ≤ data.length) : (detectProtocol data len).type = classify (data.take len) := by
  have hnil : data.take len = [] ↔ len = 0 := by
    rw [List.take_eq_nil_iff]
    constructor
    · rintro (h | rfl)
      · exact h
      · simpa using hdata
    · exact .inl
  unfold detectProtocol classify
  simp only [hnil, ← detectMqttProtocol_iff, ← detectSslTlsProtocol_iff, ← isTextProtocol_iff]
  split
  · rfl
  split
  · rfl
  split
  · rfl
  split
  · rw [cstr_take hlen]
    exact detectText_type hlen rfl
  · rfl

end MinhServer
