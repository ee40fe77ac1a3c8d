import MinhServer.Classification
import MinhServer.Socket

namespace MinhServer
open CString Wire

theorem not_isMqttConnect {s : Bytes} (h0 : 0 ∉ s) : ¬ IsMqttConnect s := by
  rintro ⟨-, hname⟩
  have hmem : 0 ∈ (s.drop 2).take 6 := by
    rw [hname]
    exact List.mem_cons_self
  exact h0 (List.drop_subset _ _ (List.take_subset _ _ hmem))

theorem not_isText_of_handshake {s : Bytes} (h : s[0]? = some 0x16) : ¬ IsText s := by
  intro htext
  cases s with
  | nil => cases h
  | cons b s =>
    cases h
    have hbyte : isTextByte 0x16 = true := htext _ (by simp)
    exact absurd hbyte (by decide)

theorem classify_of_isText {s : Bytes} (h0 : 0 ∉ s) (hne : s ≠ []) (htext : IsText s) :
    classify s = textType s := by
  have hhello : ¬ IsClientHello s := fun h => not_isText_of_handshake h.1 htext
  rw [classify, if_neg hne, if_neg (not_isMqttConnect h0), if_neg hhello, if_pos htext,
    cstr_eq_self h0]

theorem detectProtocol_cstr (data : Bytes) :
    (detectProtocol data (cstr data).length).type = classify (cstr data) := by
  rw [detectProtocol_type le_rfl (cstr_isPrefix data).length_le, ← take_cstr le_rfl,
    List.take_length]

theorem textType_cases (s : Bytes) : textType s = .websocket ∨ textType s = .http := by
  unfold textType
  split
  · exact .inl rfl
  · exact .inr rfl

/-- The value of the Upgrade header; `matchCase` tells whether its case counts. -/
def IsWebSocketValue (matchCase : Bool) (value : Bytes) : Prop :=
  if matchCase then value = ascii "websocket" else sameNoCase value (ascii "websocket") = true

def WebSocketHeader (matchCase : Bool) (line : Bytes) : Prop :=
  58 ∈ line ∧
    (sameNoCase (fieldName line) (ascii "Upgrade") = true ∧
        IsWebSocketValue matchCase (headerValue line) ∨
      sameNoCase (fieldName line) (ascii "Sec-WebSocket-Key") = true ∨
      sameNoCase (fieldName line) (ascii "Sec-WebSocket-Version") = true)

def HasWebSocketHeader (matchCase : Bool) (s : Bytes) : Prop :=
  ∃ line ∈ headerLines s, WebSocketHeader matchCase line

/-- A line is taken for a WebSocket header that is none: the request line, or a header line
with a part of a name or a value. -/
def Misread (matchCase : Bool) (s : Bytes) : Prop :=
  (∃ line ∈ (scannedLines s).head?, ReadAsWebSocket line) ∨
    ∃ line ∈ headerLines s, ReadAsWebSocket line ∧ ¬ WebSocketHeader matchCase line

def requestLine (s : Bytes) : Bytes := (lines s).headD []

/-- A text with a request line of three tokens that the detector has room for. -/
structure TextRequest (s : Bytes) : Prop where
  text : isTextProtocol s s.length = true
  tokens : (words (requestLine s)).length = 3
  short : (requestLine s).length < 1024

instance (matchCase : Bool) (value : Bytes) : Decidable (IsWebSocketValue matchCase value) := by
  unfold IsWebSocketValue
  exact inferInstance

instance (matchCase : Bool) (line : Bytes) : Decidable (WebSocketHeader matchCase line) := by
  unfold WebSocketHeader
  exact inferInstance

instance (matchCase : Bool) (s : Bytes) : Decidable (HasWebSocketHeader matchCase s) :=
  inferInstanceAs (Decidable (∃ line ∈ headerLines s, WebSocketHeader matchCase line))

theorem abbreviates_of_same {given name : Bytes} (h : sameNoCase given name = true) :
    Abbreviates given name := by
  rw [sameNoCase, beq_iff_eq] at h
  rw [Abbreviates, h]

theorem abbreviates_iff_of_same {given name : Bytes} (other : Bytes)
    (h : sameNoCase given name = true) : Abbreviates given other ↔ Abbreviates name other := by
  rw [sameNoCase, beq_iff_eq] at h
  rw [Abbreviates, Abbreviates, h]

theorem IsWebSocketValue.abbreviates {matchCase : Bool} {value : Bytes}
    (h : IsWebSocketValue matchCase value) : Abbreviates value (ascii "websocket") := by
  unfold IsWebSocketValue at h
  split at h
  · rw [h, Abbreviates]
  · exact abbreviates_of_same h

/-- No WebSocket header is missed. -/
theorem WebSocketHeader.read {matchCase : Bool} {line : Bytes}
    (h : WebSocketHeader matchCase line) : ReadAsWebSocket line := by
  obtain ⟨hcolon, hfield⟩ := h
  refine ⟨hcolon, ?_⟩
  rcases hfield with ⟨hname, hvalue⟩ | hname | hname
  · rw [if_pos (abbreviates_of_same hname)]
    exact hvalue.abbreviates
  · -- the whole name begins neither of the names that are tested before it
    have hother := fun other => abbreviates_iff_of_same other hname
    rw [if_neg (by rw [hother]; decide)]
    exact ⟨by rw [hother]; decide, .inl (abbreviates_of_same hname)⟩
  · have hother := fun other => abbreviates_iff_of_same other hname
    rw [if_neg (by rw [hother]; decide)]
    exact ⟨by rw [hother]; decide, .inr (abbreviates_of_same hname)⟩

theorem sscanf_three_words {line : Bytes} (h : (words line).length = 3) :
    (sscanf requestLineFormat line).length = 3 := by
  have step : ∀ (fmt : List Directive) (n k : Nat) (s : Bytes), k + 1 ≤ (words s).length →
      ∃ tok rest, k ≤ (words rest).length ∧
        sscanf (.str (some (n + 1)) :: fmt) s = tok :: sscanf fmt rest := by
    intro fmt n k s hk
    cases hw : words s with
    | nil => simp [hw] at hk
    | cons w ws =>
      obtain ⟨rest, hrest, hscan⟩ := sscanf_str_width fmt n hw
      rw [hw, List.length_cons] at hk
      exact ⟨_, rest, by omega, hscan⟩
  -- a method of more than fifteen bytes is cut, and its rest is taken for the next word
  obtain ⟨method, afterMethod, hmethod, hscan⟩ := step _ 14 2 line (by omega)
  obtain ⟨path, afterPath, hpath, hscan'⟩ := step _ 1022 1 afterMethod hmethod
  obtain ⟨version, afterVersion, -, hscan''⟩ := step [] 14 0 afterPath hpath
  rw [requestLineFormat, hscan, sscanf_space_str, hscan', sscanf_space_str, hscan'']
  rfl

section Requests
variable {s line : Bytes} {ls : List Bytes} {matchCase : Bool}

theorem requestLine_of_scanned (h : scannedLines s = line :: ls) : requestLine s = line := by
  cases hs : strstr s [13, 10] with
  | none =>
    rw [scannedLines_of_none hs] at h
    cases h
  | some n =>
    by_cases hn : n = 0
    · subst hn
      rw [scannedLines_of_blank hs] at h
      cases h
    · rw [scannedLines_of_some hs hn] at h
      rw [requestLine, lines_of_some hs]
      exact (List.cons.inj h).1

theorem TextRequest.ne_nil (h : TextRequest s) : s ≠ [] := by
  rintro rfl
  have htokens := h.tokens
  rw [requestLine, lines_of_none (by decide), if_pos rfl, List.headD_nil,
    words_of_blank (by simp)] at htokens
  cases htokens

theorem TextRequest.isText (h : TextRequest s) : IsText s := by
  have htext := isTextProtocol_iff.mp h.text
  rwa [List.take_length] at htext

theorem TextRequest.reads (h : TextRequest s) (hlines : scannedLines s = line :: ls) :
    ReadsRequestLine s := by
  have hline := requestLine_of_scanned hlines
  rw [readsRequestLine_of_cons hlines]
  exact ⟨hline ▸ h.short, sscanf_three_words (hline ▸ h.tokens)⟩

theorem TextRequest.textType_eq (h : TextRequest s) (matchCase : Bool) :
    textType s = .websocket ↔ Misread matchCase s ∨ HasWebSocketHeader matchCase s := by
  cases hlines : scannedLines s with
  | nil =>
    rw [textType_of_not_reads (not_readsRequestLine_of_nil hlines)]
    simp [Misread, HasWebSocketHeader, headerLines, hlines]
  | cons line ls =>
    rw [textType_of_reads (h.reads hlines)]
    simp only [Misread, HasWebSocketHeader, headerLines, hlines, List.head?_cons, List.tail_cons,
      Option.mem_some_iff, exists_eq_left', List.exists_mem_cons_iff]
    constructor
    · intro htype
      split at htype
      · next hread =>
        rcases hread with hread | ⟨l, hl, hread⟩
        · exact .inl (.inl hread)
        · by_cases hheader : WebSocketHeader matchCase l
          · exact .inr ⟨l, hl, hheader⟩
          · exact .inl (.inr ⟨l, hl, hread, hheader⟩)
      · cases htype
    · rintro ((hread | ⟨l, hl, hread, -⟩) | ⟨l, hl, hheader⟩)
      · exact if_pos (.inl hread)
      · exact if_pos (.inr ⟨l, hl, hread⟩)
      · exact if_pos (.inr ⟨l, hl, hheader.read⟩)

end Requests

/-- A text request is taken for WebSocket exactly when one of its headers asks for it, unless
a line is misread and no header asks for it. -/
theorem websocket_exact_iff (matchCase : Bool) {data : Bytes} (h : TextRequest (cstr data)) :
    (((detectProtocol data (cstr data).length).type = .websocket ↔
        HasWebSocketHeader matchCase (cstr data)) ∧
      (¬ HasWebSocketHeader matchCase (cstr data) →
        (detectProtocol data (cstr data).length).type = .http)) ↔
    (Misread matchCase (cstr data) → HasWebSocketHeader matchCase (cstr data)) := by
  have htype := h.textType_eq matchCase
  rw [detectProtocol_cstr, classify_of_isText (zero_notMem_cstr data) h.ne_nil h.isText]
  rcases textType_cases (cstr data) with hsocket | hhttp
  · simp only [hsocket, true_iff] at htype ⊢
    tauto
  · simp only [hhttp] at htype ⊢
    tauto

/-- A handshake. -/
theorem websocket_exact_handshake :
    let text := ascii "GET / HTTP/1.1\r\nupgrade: websocket\r\n\r\n"
    (detectProtocol (text ++ [0]) text.length).type = .websocket ↔ HasWebSocketHeader true text := by
  intro text
  have hcstr : cstr (text ++ [0]) = text := by decide +kernel
  have htext : TextRequest (cstr (text ++ [0])) :=
    ⟨by decide +kernel, by decide +kernel, by decide +kernel⟩
  have hheader : HasWebSocketHeader true (cstr (text ++ [0])) := by decide +kernel
  have hexact := ((websocket_exact_iff true htext).mpr fun _ => hheader).1
  rwa [hcstr] at hexact

/-- A header whose name is the first letter of `Sec-WebSocket-Key` is taken for it. -/
theorem first_letter_taken_for_websocket : ¬ ∀ matchCase data, TextRequest (cstr data) →
    ((detectProtocol data (cstr data).length).type = .websocket ↔
        HasWebSocketHeader matchCase (cstr data)) ∧
      (¬ HasWebSocketHeader matchCase (cstr data) →
        (detectProtocol data (cstr data).length).type = .http) := by
  intro h
  have htext : TextRequest (cstr (ascii "GET / HTTP/1.1\r\nS: 1\r\n\r\n" ++ [0])) :=
    ⟨by decide +kernel, by decide +kernel, by decide +kernel⟩
  have hsocket : (detectProtocol (ascii "GET / HTTP/1.1\r\nS: 1\r\n\r\n" ++ [0])
      (cstr (ascii "GET / HTTP/1.1\r\nS: 1\r\n\r\n" ++ [0])).length).type = .websocket := by
    decide +kernel
  have hnone : ¬ HasWebSocketHeader false
      (cstr (ascii "GET / HTTP/1.1\r\nS: 1\r\n\r\n" ++ [0])) := by
    decide +kernel
  exact hnone ((h false _ htext).1.mp hsocket)

section Bodies
variable {head body : Bytes}

def Ended (s : Bytes) : Prop :=
  strstr s [13, 10] = some 0 ∨ ∃ left, strstr s headEnd = some left

/-- After a line that is not blank the blank line is still to come. -/
theorem Ended.drop {s : Bytes} (h : Ended s) {n : Nat} (hline : strstr s [13, 10] = some n)
    (hn : n ≠ 0) : Ended (s.drop (n + 2)) := by
  rcases h with hzero | ⟨left, hleft⟩
  · rw [hline] at hzero
    exact absurd (Option.some.inj hzero) hn
  · obtain ⟨j, hj, hcut⟩ := exists_lineCut hleft
    obtain rfl := Option.some.inj (hline.symm.trans hj)
    rcases hcut with rfl | ⟨-, hrest⟩
    · have hblank : [13, 10] <+: s.drop (n + 2) := by
        have hbehind := strstr_split hleft
        rw [strstr_split hline] at hbehind
        exact ⟨_, (List.append_cancel_left hbehind).symm⟩
      exact .inl (strstr_eq_zero hblank)
    · exact .inr ⟨_, hrest⟩

theorem scannedLines_append {head : Bytes} (h : Ended head) (body : Bytes) :
    scannedLines (head ++ body) = scannedLines head := by
  induction hsize : head.length using Nat.strong_induction_on generalizing head with
  | _ size ih =>
  have hfinds : ∃ n, strstr head [13, 10] = some n := by
    rcases h with hzero | ⟨left, hleft⟩
    · exact ⟨0, hzero⟩
    · obtain ⟨n, hn, -⟩ := exists_lineEnd hleft
      exact ⟨n, hn⟩
  obtain ⟨n, hn⟩ := hfinds
  have hn' := strstr_append (by decide) hn body
  by_cases hzero : n = 0
  · subst hzero
    rw [scannedLines_of_blank hn, scannedLines_of_blank hn']
  · have hend := strstr_end_le (by decide) hn
    simp only [List.length_cons, List.length_nil] at hend
    rw [scannedLines_of_some hn hzero, scannedLines_of_some hn' hzero,
      List.take_append_of_le_length (by omega), List.drop_append_of_le_length (by omega),
      ih _ (by rw [List.length_drop]; omega) (h.drop hn hzero) rfl]

theorem textType_of_lines {s s' : Bytes} (h : scannedLines s = scannedLines s') :
    textType s = textType s' := by
  refine if_congr ?_ rfl rfl
  rw [ReadsRequestLine, ReadsRequestLine, h]

/-- The bytes of a body that the text test still looks at are text. -/
def BodyLooksText (head body : Bytes) : Prop :=
  ∀ c ∈ body.take (100 - head.length), isTextByte c = true

theorem isText_append {head : Bytes} (h : IsText head) (body : Bytes) :
    IsText (head ++ body) ↔ BodyLooksText head body := by
  rw [IsText, List.take_append]
  constructor
  · intro hall c hc
    exact hall c (List.mem_append_right _ hc)
  · intro hall c hc
    rcases List.mem_append.mp hc with hc | hc
    · exact h c hc
    · exact hall c hc

instance (head body : Bytes) : Decidable (BodyLooksText head body) :=
  inferInstanceAs (Decidable (∀ c ∈ body.take (100 - head.length), isTextByte c = true))

theorem Ended.ne_nil {head : Bytes} (h : Ended head) : head ≠ [] := by
  rintro rfl
  rcases h with hzero | ⟨left, hleft⟩
  · cases hzero
  · cases hleft

theorem classify_append {head body : Bytes} (hended : Ended head) (htext : IsText head)
    (h0 : 0 ∉ head ++ body) : classify (head ++ body) =
      if BodyLooksText head body then textType head else .unknown := by
  have hne : head ++ body ≠ [] := by simp [hended.ne_nil]
  split
  · next hbody =>
    rw [classify_of_isText h0 hne ((isText_append htext body).mpr hbody),
      textType_of_lines (scannedLines_append hended body)]
  · next hbody =>
    have hhello : ¬ IsClientHello (head ++ body) := by
      rintro ⟨hfirst, -⟩
      rw [List.getElem?_append_left (List.length_pos_iff.mpr hended.ne_nil)] at hfirst
      exact not_isText_of_handshake hfirst htext
    rw [classify, if_neg hne, if_neg (not_isMqttConnect h0), if_neg hhello,
      if_neg fun h => hbody ((isText_append htext body).mp h)]

/-- Two requests with one head get the same type exactly when the bytes of their bodies among
the first hundred bytes are text in both or in neither. -/
theorem body_independent_iff {data₁ data₂ body₁ body₂ : Bytes} {n : Nat}
    (h₁ : cstr data₁ = head ++ body₁) (h₂ : cstr data₂ = head ++ body₂)
    (hend : strstr head headEnd = some n) (htext : IsText head) :
    (detectProtocol data₁ (cstr data₁).length).type =
        (detectProtocol data₂ (cstr data₂).length).type ↔
      (BodyLooksText head body₁ ↔ BodyLooksText head body₂) := by
  have hended : Ended head := .inr ⟨n, hend⟩
  have hunknown : textType head ≠ .unknown := by
    rcases textType_cases head with h | h <;> simp [h]
  rw [detectProtocol_cstr, detectProtocol_cstr, h₁, h₂,
    classify_append hended htext (h₁ ▸ zero_notMem_cstr data₁),
    classify_append hended htext (h₂ ▸ zero_notMem_cstr data₂)]
  by_cases hb₁ : BodyLooksText head body₁
  · by_cases hb₂ : BodyLooksText head body₂
    · simp [hb₁, hb₂]
    · simp [hb₁, hb₂, hunknown]
  · by_cases hb₂ : BodyLooksText head body₂
    · simp [hb₁, hb₂, hunknown.symm]
    · simp [hb₁, hb₂]

end Bodies

/-- Two texts as bodies. -/
theorem body_independent_texts :
    let head := ascii "POST / HTTP/1.1\r\n\r\n"
    (detectProtocol (head ++ [97, 0]) 20).type = (detectProtocol (head ++ [98, 0]) 20).type := by
  intro head
  have hend : strstr head headEnd = some 15 := by decide +kernel
  have htext : IsText head := by decide +kernel
  have h₁ : cstr (head ++ [97, 0]) = head ++ [97] := by decide +kernel
  have h₂ : cstr (head ++ [98, 0]) = head ++ [98] := by decide +kernel
  have hsame := (body_independent_iff h₁ h₂ hend htext).mpr
    (iff_of_true (by decide +kernel) (by decide +kernel))
  rwa [h₁, h₂] at hsame

/-- A body with a control byte behind a short head. -/
theorem control_byte_changes_type : ¬ ∀ head data₁ data₂ body₁ body₂ n,
    cstr data₁ = head ++ body₁ → cstr data₂ = head ++ body₂ →
    strstr head headEnd = some n → head.length = n + 4 → TextRequest head →
    (∀ c ∈ head, isTextByte c = true) →
    (detectProtocol data₁ (cstr data₁).length).type =
      (detectProtocol data₂ (cstr data₂).length).type := by
  intro h
  generalize hhead : ascii "POST / HTTP/1.1\r\n\r\n" = head at h
  have hsame := h head (head ++ [97, 0]) (head ++ [1, 0]) [97] [1] 15 (by subst hhead; decide +kernel)
    (by subst hhead; decide +kernel) (by subst hhead; decide +kernel) (by subst hhead; rfl)
    (by subst hhead; exact ⟨by decide +kernel, by decide +kernel, by decide +kernel⟩)
    (by subst hhead; decide +kernel)
  revert hsame
  subst hhead
  decide +kernel

theorem take_cstr_of_notMem {b : Bytes} {n : Nat} (h : 0 ∉ b.take n) :
    (cstr b).take n = b.take n := by
  have hcstr := cstr_append (b := b.drop n) h
  rw [List.take_append_drop] at hcstr
  rw [hcstr, List.take_append, List.take_take, min_self]
  by_cases hlen : n ≤ b.length
  · rw [List.length_take, min_eq_left hlen, Nat.sub_self, List.take_zero, List.append_nil]
  · rw [List.drop_eq_nil_of_le (by omega)]
    simp [cstr]

theorem not_isText_of_nul {b : Bytes} (h : 0 ∈ b.take 100) : ¬ IsText b := by
  intro htext
  exact absurd (htext 0 h) (by decide)

theorem classify_congr {b t : Bytes} (h : t.take 100 = b.take 100) (hcstr : cstr t = cstr b) :
    classify t = classify b := by
  have hbyte : ∀ i < 100, t[i]? = b[i]? := by
    intro i hi
    rw [← List.getElem?_take_of_lt hi, h, List.getElem?_take_of_lt hi]
  have hnil : t = [] ↔ b = [] := by
    have hzero := hbyte 0 (by omega)
    constructor
    · rintro rfl
      simpa using hzero.symm
    · rintro rfl
      simpa using hzero
  have hname : (t.drop 2).take 6 = (b.drop 2).take 6 := by
    have hboth := congrArg (fun l => (l.drop 2).take 6) h
    simpa [List.drop_take, List.take_take] using hboth
  have hmqtt : IsMqttConnect t ↔ IsMqttConnect b := by
    rw [IsMqttConnect, IsMqttConnect, hname, hbyte 0 (by omega)]
  have hhello : IsClientHello t ↔ IsClientHello b := by
    rw [IsClientHello, IsClientHello, hbyte 0 (by omega), hbyte 5 (by omega)]
  have htext : IsText t ↔ IsText b := by rw [IsText, IsText, h]
  simp only [classify, hnil, hmqtt, hhello, htext, hcstr]

theorem getElem?_cstr {b : Bytes} {i : Nat} (hi : i < (cstr b).length) : (cstr b)[i]? = b[i]? := by
  obtain ⟨t, ht⟩ := cstr_isPrefix b
  nth_rewrite 2 [← ht]
  exact (List.getElem?_append_left hi).symm

theorem isClientHello_cstr_iff (b : Bytes) :
    IsClientHello (cstr b) ↔ IsClientHello b ∧ 5 < (cstr b).length := by
  constructor
  · intro h
    obtain ⟨h5, -⟩ := List.getElem?_eq_some_iff.mp h.2
    rw [IsClientHello, getElem?_cstr (by omega), getElem?_cstr h5] at h
    exact ⟨h, h5⟩
  · rintro ⟨h, h5⟩
    rwa [IsClientHello, getElem?_cstr (by omega), getElem?_cstr h5]

/-- What is received has no NUL among the bytes that are tested, or it is no MQTT CONNECT, no
ClientHello that is cut, and not text up to the NUL. -/
def SeenWhole (b : Bytes) : Prop :=
  0 ∉ b.take 100 ∨
    ¬ IsMqttConnect b ∧ (IsClientHello b → 5 < (cstr b).length) ∧
      (cstr b = [] ∨ ¬ IsText (cstr b))

/-- Up to the first NUL all that is received is classified like the whole exactly when it is
seen whole. -/
theorem classify_cstr_iff (b : Bytes) : classify (cstr b) = classify b ↔ SeenWhole b := by
  have hstring : cstr (cstr b) = cstr b := cstr_eq_self (zero_notMem_cstr b)
  by_cases h0 : 0 ∈ b.take 100
  · have hnottext := not_isText_of_nul h0
    have hne : b ≠ [] := by
      rintro rfl
      simp at h0
    rw [SeenWhole, or_iff_right (not_not_intro h0), classify,
      if_neg (not_isMqttConnect (zero_notMem_cstr b)), hstring, classify, if_neg hne,
      if_neg hnottext]
    by_cases hmqtt : IsMqttConnect b
    · -- a string is never taken for an MQTT CONNECT
      simp only [hmqtt, if_true, not_true, false_and, iff_false]
      rcases textType_cases (cstr b) with htype | htype <;> rw [htype] <;> split_ifs <;> decide
    simp only [hmqtt, if_false, not_false_iff, true_and]
    by_cases hhello : IsClientHello b
    · -- what is left of a ClientHello is none or still begins with a control byte
      have hstart : cstr b = [] ∨ ¬ IsText (cstr b) := by
        by_cases hempty : cstr b = []
        · exact .inl hempty
        · refine .inr (not_isText_of_handshake ?_)
          rw [getElem?_cstr (List.length_pos_iff.mpr hempty)]
          exact hhello.1
      by_cases hlong : 5 < (cstr b).length
      · have hempty : cstr b ≠ [] := List.length_pos_iff.mp (by omega)
        have hstill := (isClientHello_cstr_iff b).mpr ⟨hhello, hlong⟩
        simp [hempty, hstill, hhello, hlong, hstart.resolve_left hempty]
      · have hcut : ¬ IsClientHello (cstr b) := fun h => hlong ((isClientHello_cstr_iff b).mp h).2
        rcases hstart with hempty | hnot
        · simp [hempty, hhello]
        · simp [hcut, hhello, hlong, hnot]
    · -- the whole is of no known protocol, what comes before the NUL may still be text
      have hcut : ¬ IsClientHello (cstr b) := fun h => hhello ((isClientHello_cstr_iff b).mp h).1
      simp only [hhello, hcut, if_false, false_implies, true_and]
      by_cases hempty : cstr b = []
      · simp [hempty]
      · by_cases htext : IsText (cstr b)
        · rcases textType_cases (cstr b) with htype | htype <;> simp [hempty, htext, htype]
        · simp [hempty, htext]
  · rw [SeenWhole]
    exact iff_of_true (classify_congr (take_cstr_of_notMem h0) hstring) (.inl h0)

/-- The type that `handleOneClientRequest` computes, with the length of the string, is that of
all that was received exactly when it is seen whole. -/
theorem detection_sees_received_iff (r : RecvBuffer) :
    (detectProtocol (cstr r.memory) (cstr r.memory).length).type =
        (detectProtocol r.memory r.bytes.length).type ↔ SeenWhole r.bytes := by
  have hstring := detectProtocol_cstr (cstr r.memory)
  rw [cstr_eq_self (zero_notMem_cstr r.memory), cstr_memory] at hstring
  have hend : (cstr r.memory).length ≤ r.bytes.length := by
    rw [cstr_memory]
    exact (cstr_isPrefix r.bytes).length_le
  have hmemory : r.bytes.length ≤ r.memory.length := by simp [RecvBuffer.memory]
  have hwhole := detectProtocol_type hend hmemory
  rw [show r.memory.take r.bytes.length = r.bytes from List.take_left] at hwhole
  rw [cstr_memory, hstring, hwhole, classify_cstr_iff]

/-- The CONNECT of the documentation. -/
theorem mqtt_connect_not_seen : ¬ ∀ mode peer r peer',
    recvRequest mode peer = (some r, peer') → r.bytes ≠ [] →
    (detectProtocol (cstr r.memory) (cstr r.memory).length).type =
      (detectProtocol r.memory r.bytes.length).type := by
  intro h
  let connect : Bytes := [0x10, 0x1c, 0, 4] ++ ascii "MQTT" ++ [4, 0xc2, 0, 0x3c, 0, 7] ++
    ascii "client1" ++ [0, 5] ++ ascii "will/" ++ [0, 7] ++ ascii "goodbye"
  have hrun : (recvRequest .blocking ⟨[.data connect], .close⟩).1.map (fun r =>
      decide (r.bytes ≠ [] ∧ (detectProtocol (cstr r.memory) (cstr r.memory).length).type ≠
        (detectProtocol r.memory r.bytes.length).type)) = some true := by
    decide +kernel
  obtain ⟨r, hr, hdiffer⟩ := Option.map_eq_some_iff.mp hrun
  obtain ⟨hne, hdiffer⟩ := of_decide_eq_true hdiffer
  exact hdiffer (h .blocking _ r _ (Prod.ext hr rfl) hne)

end MinhServer
