import MinhServer.Conversation
import MinhServer.Detection

namespace MinhServer
open CString

def scanHeader (info : ProtocolInfo) (line : Bytes) : ProtocolInfo :=
  match strchr line 58 with
  | some colon => parseHttpHeader line colon info
  | none => info

/-- The lines whose value the detector takes for the length of the body. -/
def ReadAsContentLength (line : Bytes) : Prop :=
  58 ∈ line ∧ Abbreviates (fieldName line) (ascii "Content-Length") ∧
    ∀ name ∈ ["Upgrade", "Connection", "Sec-WebSocket-Key", "Sec-WebSocket-Version"],
      ¬ Abbreviates (fieldName line) (ascii name)

instance (line : Bytes) : Decidable (ReadAsContentLength line) :=
  inferInstanceAs (Decidable (58 ∈ line ∧ Abbreviates (fieldName line) (ascii "Content-Length") ∧
    ∀ name ∈ ["Upgrade", "Connection", "Sec-WebSocket-Key", "Sec-WebSocket-Version"],
      ¬ Abbreviates (fieldName line) (ascii name)))

section Scan
variable {ptr line : Bytes} {len n : Nat} {info : ProtocolInfo}

theorem scanLine_eq (h : n ≤ (cstr ptr).length) (info : ProtocolInfo) :
    scanLine ptr n info = scanHeader info ((cstr ptr).take n) := by
  unfold scanLine scanHeader
  rw [strchr_take]
  cases strchr (cstr ptr) 58 with
  | none => rfl
  | some colon =>
    rw [Option.bind_some]
    dsimp only
    split
    · next hlt => rw [Option.guard_pos (by simpa using hlt), take_cstr h]
    · next hlt => rw [Option.guard_eq_none_iff.mpr (by simpa using hlt)]

theorem parseHttpHeaders_foldl (hlen : (cstr ptr).length ≤ len) (info : ProtocolInfo) :
    parseHttpHeaders ptr len info = (scannedLines (cstr ptr)).foldl scanHeader info := by
  induction hsize : ptr.length using Nat.strong_induction_on generalizing ptr len info with
  | _ size ih =>
  cases h : strstr (cstr ptr) [13, 10] with
  | none => rw [parseHttpHeaders_of_none h, scannedLines_of_none h, List.foldl_nil]
  | some n =>
    by_cases hn : n = 0
    · subst hn
      rw [parseHttpHeaders_of_blank h, scannedLines_of_blank h, List.foldl_nil]
    · have hend := strstr_end_le (by decide) h
      have hle := (cstr_isPrefix ptr).length_le
      simp only [List.length_cons, List.length_nil] at hend
      have hdrop : cstr (ptr.drop (n + 2)) = (cstr ptr).drop (n + 2) := cstr_drop (by omega)
      have hleft : (cstr (ptr.drop (n + 2))).length ≤ len - (n + 2) := by
        rw [hdrop, List.length_drop]
        omega
      rw [parseHttpHeaders_of_some (by omega) h hn, scannedLines_of_some h hn, List.foldl_cons,
        ← scanLine_eq (by omega), ← hdrop]
      exact ih (ptr.drop (n + 2)).length (by rw [List.length_drop]; omega) hleft _ rfl

/-- A line sets the type or the length, or nothing. -/
theorem scanHeader_eq (info : ProtocolInfo) (line : Bytes) : scanHeader info line =
    { info with
      type := if ReadAsWebSocket line then .websocket else info.type
      contentLength := if ReadAsContentLength line then scanInt ((headerValue line).take 31)
        else info.contentLength } := by
  unfold scanHeader
  cases hcolon : strchr line 58 with
  | none =>
    have hmem : 58 ∉ line := strchr_eq_none_iff.mp hcolon
    rw [if_neg fun h => hmem h.1, if_neg fun h => hmem h.1]
  | some colon =>
    have htype := parseHttpHeader_type hcolon info
    have hmem : 58 ∈ line := by
      by_contra hno
      rw [strchr_eq_none_iff.mpr hno] at hcolon
      cases hcolon
    have hvalue : (line.drop (colon + 1)).dropWhile (· == 32) = headerValue line := by
      rw [headerValue, length_fieldName hcolon]
    have hread : ∀ name, eqNoCase line name colon = true ↔
        Abbreviates (fieldName line) name := by
      intro name
      rw [eqNoCase_iff (strchr_lt hcolon).le, fieldName_eq_take hcolon]
    rw [← htype]
    unfold parseHttpHeader
    simp only [hvalue, hread, ReadAsContentLength, hmem, true_and, List.forall_mem_cons,
      List.not_mem_nil, false_implies, implies_true, and_true]
    split
    · next hu =>
      simp only [hu, not_true_eq_false, false_and, and_false, if_false]
      split <;> rfl
    · next hu =>
      split
      · next hc => simp only [hc, not_true_eq_false, false_and, and_false, if_false]
      · next hc =>
        split
        · next hk => simp only [hk, not_true_eq_false, false_and, and_false, if_false]
        · next hk =>
          split
          · next hv => simp only [hv, not_true_eq_false, and_false, if_false]
          · next hv =>
            split
            · next hl => simp only [hu, hc, hk, hv, hl, not_false_eq_true, and_self, if_true]
            · next hl => simp only [hl, false_and, if_false]

theorem foldl_scanHeader (ls : List Bytes) (info : ProtocolInfo) : ls.foldl scanHeader info =
    { info with
      type := if ∃ line ∈ ls, ReadAsWebSocket line then .websocket else info.type
      contentLength := ((ls.filter fun line => ReadAsContentLength line).getLast?.map
        fun line => scanInt ((headerValue line).take 31)).getD info.contentLength } := by
  induction ls using List.reverseRecOn with
  | nil => simp
  | append_singleton ls line ih =>
    rw [List.foldl_append, ih, List.foldl_cons, List.foldl_nil, scanHeader_eq]
    have hany : (∃ l ∈ ls ++ [line], ReadAsWebSocket l) ↔
        ReadAsWebSocket line ∨ ∃ l ∈ ls, ReadAsWebSocket l := by
      simp only [List.mem_append, List.mem_singleton]
      grind
    simp only [hany, List.filter_append]
    by_cases hw : ReadAsWebSocket line
    · by_cases hl : ReadAsContentLength line
      · simp [hw, hl]
      · simp [hw, hl]
    · by_cases hl : ReadAsContentLength line
      · simp [hw, hl]
      · simp [hw, hl]

end Scan

theorem scannedLines_joinLines {ls : List Bytes} (h : ∀ l ∈ ls, l ≠ [] ∧ 13 ∉ l) :
    scannedLines (joinLines ls ++ crlf) = ls := by
  induction ls with
  | nil => exact scannedLines_of_blank rfl
  | cons l ls ih =>
    obtain ⟨⟨hne, hcr⟩, hrest⟩ := List.forall_mem_cons.mp h
    have hsplit : joinLines (l :: ls) ++ crlf = l ++ 13 :: 10 :: (joinLines ls ++ crlf) := by
      simp only [joinLines, List.flatMap_cons, List.append_assoc]
      rfl
    have habsent : ¬ [13, 10] <:+: l := fun hin => hcr (hin.subset List.mem_cons_self)
    have hend : strstr (13 :: 10 :: (joinLines ls ++ crlf)) [13, 10] = some 0 :=
      strstr_eq_zero ⟨joinLines ls ++ crlf, rfl⟩
    have hfound : strstr (joinLines (l :: ls) ++ crlf) [13, 10] = some l.length := by
      rw [hsplit, strstr_append_of_absent (by decide) habsent, hend, Option.map_some, Nat.zero_add]
    have hdrop : (joinLines (l :: ls) ++ crlf).drop (l.length + 2) = joinLines ls ++ crlf := by
      rw [hsplit, ← List.drop_drop, List.drop_left]
      rfl
    rw [scannedLines_of_some hfound (List.length_pos_iff.mpr hne).ne', hdrop, ih hrest, hsplit,
      List.take_left]

theorem Token.sscanf_append {n : Nat} (token : Token n) (fmt : List Directive) {width : Nat}
    (hfits : token.text.bytes.length ≤ width) {rest : Bytes}
    (hrest : ∀ b ∈ rest.head?, isspace b = true) :
    sscanf (.str (some width) :: fmt) (token.text.bytes ++ rest) =
      token.text.bytes :: sscanf fmt rest := by
  have hfront : (token.text.bytes ++ rest).dropWhile isspace = token.text.bytes ++ rest := by
    obtain ⟨b, t, hcons⟩ := List.exists_cons_of_ne_nil token.nonempty
    have hb := token.solid b (by rw [hcons]; exact List.mem_cons_self)
    rw [hcons, List.cons_append, List.dropWhile_cons_of_neg (by rw [hb]; exact Bool.false_ne_true)]
  have hword : (token.text.bytes ++ rest).takeWhile (fun b => !isspace b) = token.text.bytes := by
    apply takeWhile_append_stop
    · exact fun b hb => by rw [token.solid b hb]; rfl
    · exact fun b hb => by rw [hrest b hb]; rfl
  simp only [sscanf, hfront, hword, List.take_of_length_le hfits, if_neg token.nonempty,
    List.drop_left]

/-- The numbers of `HTTP/1.1`. -/
def httpVersion (version : Bytes) : Int × Int :=
  if version.take 5 = ascii "HTTP/" then
    match sscanf [.int, .lit 46, .int] (version.drop 5) with
    | [major, minor] => (scanInt major, scanInt minor)
    | [major] => (scanInt major, 0)
    | _ => (0, 0)
  else (0, 0)

section Printed
variable (text : RequestText)

theorem RequestText.sscanf_requestLine : sscanf requestLineFormat text.requestLine =
    [text.method.text.bytes, text.path.text.bytes, text.version.text.bytes] := by
  have hmethod := text.method.text.fits
  have hpath := text.path.text.fits
  have hversion := text.version.text.fits
  have hblank : ∀ s : Bytes, ∀ b ∈ (ascii " " ++ s).head?, isspace b = true := by
    intro s b hb
    cases hb
    rfl
  have hskip : ∀ (fmt : List Directive) (k n : Nat) (token : Token n) (rest : Bytes),
      sscanf (.space :: .str (some k) :: fmt) (ascii " " ++ (token.text.bytes ++ rest)) =
        sscanf (.str (some k) :: fmt) (token.text.bytes ++ rest) := by
    intro fmt k n token rest
    have hdrop : (ascii " " ++ (token.text.bytes ++ rest)).dropWhile isspace =
        (token.text.bytes ++ rest).dropWhile isspace :=
      List.dropWhile_append_of_pos (by decide +kernel)
    simp only [sscanf, hdrop, List.dropWhile_idempotent]
  have hline : text.requestLine = text.method.text.bytes ++ (ascii " " ++ (text.path.text.bytes ++
      (ascii " " ++ (text.version.text.bytes ++ [])))) := by
    simp only [requestLine, List.append_assoc, List.append_nil]
  rw [hline, requestLineFormat, text.method.sscanf_append _ (by omega) (hblank _), hskip,
    text.path.sscanf_append _ (by omega) (hblank _), hskip,
    text.version.sscanf_append _ (by omega) (fun b hb => by cases hb), sscanf]

theorem RequestText.fieldName_requestLine (hmethod : 58 ∉ text.method.text.bytes) :
    32 ∈ fieldName text.requestLine := by
  have hsplit : text.requestLine = text.method.text.bytes ++ 32 ::
      (text.path.text.bytes ++ ascii " " ++ text.version.text.bytes) := by
    have hspace : ascii " " = [32] := rfl
    simp only [requestLine, hspace, List.append_assoc, List.cons_append, List.nil_append]
  have hall : ∀ b ∈ text.method.text.bytes, (decide (b ≠ 58)) = true := by
    intro b hb
    have hne : b ≠ 58 := fun heq => hmethod (heq ▸ hb)
    simpa using hne
  rw [fieldName, hsplit, List.takeWhile_append_of_pos hall,
    List.takeWhile_cons_of_pos (by decide)]
  exact List.mem_append_right _ List.mem_cons_self

theorem not_abbreviates_of_blank {given name : Bytes} (hgiven : 32 ∈ given)
    (hname : 32 ∉ name.map tolower) : ¬ Abbreviates given name := by
  intro h
  have hblank : tolower 32 = 32 := by decide
  exact hname (h.subset (hblank ▸ List.mem_map_of_mem hgiven))

theorem RequestText.requestLine_unread (hmethod : 58 ∉ text.method.text.bytes) :
    ¬ ReadAsWebSocket text.requestLine ∧ ¬ ReadAsContentLength text.requestLine := by
  have hnone : ∀ name ∈ ["Upgrade", "Connection", "Sec-WebSocket-Key", "Sec-WebSocket-Version",
      "Content-Length"], ¬ Abbreviates (fieldName text.requestLine) (ascii name) := by
    intro name hname
    apply not_abbreviates_of_blank (text.fieldName_requestLine hmethod)
    revert name
    decide +kernel
  refine ⟨fun h => ?_, fun h => hnone "Content-Length" (by decide) h.2.1⟩
  have hread := h.2
  rw [if_neg (hnone "Upgrade" (by decide))] at hread
  rcases hread.2 with hkey | hversion
  · exact hnone _ (by decide) hkey
  · exact hnone _ (by decide) hversion

theorem HeaderField.headerValue_line (field : HeaderField) :
    headerValue field.line = field.value.text.bytes := by
  have hdrop : field.line.drop (field.name.bytes.length + 1) =
      ascii " " ++ field.value.text.bytes := by
    rw [field.line_eq, ← List.drop_drop, List.drop_left]
    rfl
  obtain ⟨b, t, hcons⟩ := List.exists_cons_of_ne_nil field.value.nonempty
  have hb := field.value.solid b (by rw [hcons]; exact List.mem_cons_self)
  have hne : b ≠ 32 := by
    rintro rfl
    exact absurd hb (by decide)
  rw [headerValue, field.fieldName_line, hdrop, hcons]
  simp [ascii, hne]

theorem detectProtocol_text {s : Bytes} (h0 : 0 ∉ s) (hne : s ≠ []) (htext : IsText s) :
    detectProtocol s s.length = detectText s s.length { type := .http } := by
  have hconnect : ¬ detectMqttProtocol s s.length = true := by
    rw [detectMqttProtocol_iff, List.take_length]
    exact not_isMqttConnect h0
  have hhello : ¬ detectSslTlsProtocol s s.length = true := by
    rw [detectSslTlsProtocol_iff, List.take_length]
    exact fun h => not_isText_of_handshake h.1 htext
  have hshown : isTextProtocol s s.length = true := by
    rw [isTextProtocol_iff, List.take_length]
    exact htext
  unfold detectProtocol
  dsimp only
  rw [if_neg (List.length_eq_zero_iff.not.mpr hne), if_neg hconnect, if_neg hhello, if_pos hshown]
  rfl

theorem RequestText.scannedLines_print :
    scannedLines text.print = text.requestLine :: text.headers.map HeaderField.line :=
  scannedLines_joinLines fun l hl => ⟨(text.line_plain l hl).1, (text.line_plain l hl).2.1⟩

theorem RequestText.strstr_print : strstr text.print [13, 10] = some text.requestLine.length ∧
    text.print.take text.requestLine.length = text.requestLine := by
  have hplain := text.line_plain text.requestLine List.mem_cons_self
  have hlines := text.scannedLines_print
  cases h : strstr text.print [13, 10] with
  | none =>
    rw [scannedLines_of_none h] at hlines
    cases hlines
  | some n =>
    by_cases hn : n = 0
    · subst hn
      rw [scannedLines_of_blank h] at hlines
      cases hlines
    · rw [scannedLines_of_some h hn] at hlines
      obtain ⟨hline, -⟩ := List.cons.inj hlines
      have hend := strstr_end_le (by decide) h
      have hlength : text.requestLine.length = n := by
        rw [← hline, List.length_take]
        omega
      rw [hlength]
      exact ⟨rfl, hline⟩

theorem RequestText.length_requestLine_lt : text.requestLine.length < 1024 := by
  have hmethod := text.method.text.fits
  have hpath := text.path.text.fits
  have hversion := text.version.text.fits
  have hspace : (ascii " ").length = 1 := rfl
  simp only [requestLine, List.length_append]
  omega

theorem RequestText.parse_requestLine (info : ProtocolInfo) (hmajor : info.versionMajor = 0)
    (hminor : info.versionMinor = 0) : parseHttpRequestLine text.requestLine info =
      some { info with
        versionMajor := (httpVersion text.version.text.bytes).1
        versionMinor := (httpVersion text.version.text.bytes).2
        method := some text.method.text.bytes
        path := some text.path.text.bytes } := by
  have hline := text.sscanf_requestLine
  by_cases htag : text.version.text.bytes.take 5 = ascii "HTTP/"
  · rcases hnumbers : sscanf [.int, .lit 46, .int] (text.version.text.bytes.drop 5) with
      _ | ⟨major, _ | ⟨minor, _ | ⟨more, rest⟩⟩⟩ <;>
    simp [parseHttpRequestLine, httpVersion, hline, hmajor, hminor, htag, hnumbers]
  · simp [parseHttpRequestLine, httpVersion, hline, hmajor, hminor, htag]

/-- What the detector makes of a printed request. -/
theorem RequestText.detectProtocol_print (htext : IsText text.print)
    (hmethod : 58 ∉ text.method.text.bytes) :
    detectProtocol text.print text.print.length =
      { type := if ∃ field ∈ text.headers, ReadAsWebSocket field.line then .websocket else .http
        isSecure := false
        versionMajor := (httpVersion text.version.text.bytes).1
        versionMinor := (httpVersion text.version.text.bytes).2
        method := some text.method.text.bytes
        path := some text.path.text.bytes
        contentLength :=
          ((text.headers.filter fun field => ReadAsContentLength field.line).getLast?.map
            fun field => scanInt (field.value.text.bytes.take 31)).getD (-1) } := by
  have h0 := text.notMem_print
  have hself : cstr text.print = text.print := cstr_eq_self h0
  obtain ⟨hline, htake⟩ := text.strstr_print
  have hne : text.print ≠ [] := by
    intro hnil
    rw [hnil] at hline
    cases hline
  obtain ⟨hwebsocket, hlength⟩ := text.requestLine_unread hmethod
  rw [detectProtocol_text h0 hne htext, detectText, hself, hline]
  dsimp only
  rw [if_pos text.length_requestLine_lt, htake, text.parse_requestLine _ rfl rfl]
  dsimp only
  rw [parseHttpHeaders_foldl (congrArg List.length hself).le, hself, text.scannedLines_print,
    List.foldl_cons, scanHeader_eq, if_neg hwebsocket, if_neg hlength, foldl_scanHeader]
  have htypes : (∃ line ∈ text.headers.map HeaderField.line, ReadAsWebSocket line) ↔
      ∃ field ∈ text.headers, ReadAsWebSocket field.line := by simp
  have hvalues : ((text.headers.map HeaderField.line).filter
        fun line => ReadAsContentLength line).getLast?.map
        (fun line => scanInt ((headerValue line).take 31)) =
      (text.headers.filter fun field => ReadAsContentLength field.line).getLast?.map
        fun field => scanInt (field.value.text.bytes.take 31) := by
    rw [List.filter_map, List.getLast?_map, Option.map_map]
    congr 1
    funext field
    rw [Function.comp_apply, field.headerValue_line]
  rw [hvalues, if_congr htypes rfl rfl]

/-- A printed request is read alike twice. The detector finds the method and the path that the
parser stores, and the numbers of the version that it stores; it takes the request for WebSocket if
and only if it reads one of the headers so, and the length of the body from the last header that it
reads as Content-Length. -/
theorem detector_agrees (text : RequestText) (htext : IsText text.print)
    (hmethod : 58 ∉ text.method.text.bytes) :
    let info := detectProtocol text.print text.print.length
    ∃ req, parseHttpRequest text.print .zeroed = .ok (0, req) ∧
      info.method = some req.method.bytes ∧ info.path = some req.path.bytes ∧
      (info.versionMajor, info.versionMinor) = httpVersion req.version.bytes ∧
      info.isSecure = false ∧
      info.type = (if ∃ field ∈ text.headers, ReadAsWebSocket field.line then .websocket
        else .http) ∧
      info.contentLength =
        ((text.headers.filter fun field => ReadAsContentLength field.line).getLast?.map
          fun field => scanInt (field.value.text.bytes.take 31)).getD (-1) := by
  intro info
  have hinfo : info = _ := text.detectProtocol_print htext hmethod
  refine ⟨text.request, text.parse_text, ?_⟩
  rw [hinfo]
  exact ⟨rfl, rfl, rfl, rfl, rfl, rfl⟩

/-- A handshake, with the length of a body. -/
theorem detector_agrees_websocket : ∃ text : RequestText,
    let info := detectProtocol text.print text.print.length
    info.type = .websocket ∧ info.method = some (ascii "GET") ∧ info.path = some (ascii "/chat") ∧
      (info.versionMajor, info.versionMinor) = (1, 1) ∧ info.contentLength = 12 := by
  let upgrade : HeaderField :=
    { name := ⟨ascii "Upgrade", by decide, by decide⟩
      nonempty := by decide
      oneLine := by decide
      value := ⟨⟨ascii "websocket", by decide, by decide⟩, by decide, by decide +kernel⟩ }
  let length : HeaderField :=
    { name := ⟨ascii "content-length", by decide, by decide⟩
      nonempty := by decide
      oneLine := by decide
      value := ⟨⟨ascii "12", by decide, by decide⟩, by decide, by decide +kernel⟩ }
  let text : RequestText :=
    { method := ⟨⟨ascii "GET", by decide, by decide⟩, by decide, by decide +kernel⟩
      path := ⟨⟨ascii "/chat", by decide, by decide⟩, by decide, by decide +kernel⟩
      version := ⟨⟨ascii "HTTP/1.1", by decide, by decide⟩, by decide, by decide +kernel⟩
      headers := [upgrade, length]
      fits := by decide }
  have htext : IsText text.print := by decide +kernel
  have hmethod : 58 ∉ text.method.text.bytes := by decide
  obtain ⟨req, hparse, hinfo, hpath, hversion, -, htype, hlength⟩ :=
    detector_agrees text htext hmethod
  obtain rfl : text.request = req :=
    (Prod.mk.inj (Except.ok.inj (text.parse_text.symm.trans hparse))).2
  refine ⟨text, htype.trans ?_, hinfo, hpath, hversion.trans ?_, hlength.trans ?_⟩
  · decide +kernel
  · decide +kernel
  · decide +kernel

end Printed
end MinhServer
