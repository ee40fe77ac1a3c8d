import MinhServer.Http.DeclaredLength
import MinhServer.Http.Response

namespace MinhServer
open CString

/-- The name of a field begins with `Connection`, in any case. -/
def isConnection (field : Bytes × Bytes) : Bool := eqNoCase field.1 (ascii "Connection") 10

/-- The first stored header whose name begins with `Connection`. -/
def connectionField (hs : List Bytes) : Option (Bytes × Bytes) :=
  (hs.filterMap storedField).find? isConnection

/-- What the value of that header says. -/
def asksToClose (value : Bytes) : Bool :=
  eqNoCase value (ascii "close") 5 || !eqNoCase value (ascii "keep-alive") 10

/-- The connection is closed after a request with these header lines. -/
def closesAfter (hs : List Bytes) : Bool :=
  ((connectionField hs).map fun field => asksToClose field.2).getD true

/-- A request line and header lines, then the text after the head. -/
def requestBytes (requestLine : Bytes) (hs : List Bytes) (body : Bytes) : Bytes :=
  joinLines (requestLine :: hs) ++ crlf ++ body

/-- The lines fit the fields of `HttpRequest`, and the head is made of them. -/
structure ProperHead (requestLine : Bytes) (hs : List Bytes) : Prop where
  line : ∀ l ∈ requestLine :: hs, IsLine l ∧ 0 ∉ l
  fits : HeadFits (requestLine :: hs)

/-- A header line with a name and a value without white space. -/
structure PlainHeader (line name value : Bytes) : Prop where
  text : ∃ ows ows', line = name ++ 58 :: (ows ++ value ++ ows') ∧ ∀ b ∈ ows ++ ows', b = 32 ∨ b = 9
  nonempty : name ≠ []
  nameBytes : ∀ b ∈ name, isspace b = false ∧ b ≠ 58 ∧ b ≠ 0
  valueBytes : ∀ b ∈ value, isspace b = false ∧ b ≠ 0
  fits : name.length ≤ 255 ∧ value.length ≤ 255

/-- Both texts are parsed, to the same return value, method, path, version and body and with the
same answer of `shouldCloseConnection`. -/
def SameOutcome (request request' : Bytes) : Prop :=
  ∃ code req code' req', parseHttpRequest request .zeroed = .ok (code, req) ∧
    parseHttpRequest request' .zeroed = .ok (code', req') ∧ code = code' ∧
    req.method = req'.method ∧ req.path = req'.path ∧ req.version = req'.version ∧
    req.body = req'.body ∧ req.bodyLength = req'.bodyLength ∧
    shouldCloseConnection req = shouldCloseConnection req'

/-- Where the field `(name, value)` is the first whose name begins with `Content-Length`, there
is no body text, or the field that was first measures it as this one does; where it is the first
whose name begins with `Connection`, it says what the field that was first says. -/
structure Unrelated (before after : List Bytes) (name value c : Bytes) : Prop where
  contentLength : isContentLength (name, value) = true → value ≠ [] →
    contentLengthField before = none → c ≠ [] →
    ∃ field, contentLengthField after = some field ∧
      (MeasuresBody value c ↔ MeasuresBody field.2 c)
  connection : isConnection (name, value) = true → value ≠ [] → connectionField before = none →
    asksToClose value = ((connectionField after).map fun field => asksToClose field.2).getD true

section Head
variable {requestLine : Bytes} {hs hs' : List Bytes} {req : HttpRequest}

theorem shouldClose_eq (hreq : ParsedHead requestLine hs req)
    (hfits : ∀ k line, hs[k]? = some line → HeaderLineFits k line) :
    shouldCloseConnection req = closesAfter hs := by
  have hslot := find?_slot_text (p := isConnection) (by decide) hreq hfits
  unfold closesAfter connectionField shouldCloseConnection
  rw [← hslot]
  show _ = (Option.map _ (Option.map _
    ((List.ofFn req.h).find? fun h => eqNoCase h.key.bytes (ascii "Connection") 10))).getD true
  cases (List.ofFn req.h).find? fun h => eqNoCase h.key.bytes (ascii "Connection") 10 with
  | none => rfl
  | some h =>
    show (if eqNoCase h.value.bytes (ascii "close") 5 then true else _) = asksToClose h.value.bytes
    unfold asksToClose
    cases eqNoCase h.value.bytes (ascii "close") 5 <;> rfl

theorem parse_requestBytes (h : ProperHead requestLine hs) (body : Bytes) :
    ∃ req, ParsedHead requestLine hs req ∧
      parseHttpRequest (requestBytes requestLine hs body) .zeroed =
        .ok (parseBody (cstr body) req) := by
  have hline : ∀ l ∈ requestLine :: hs, IsLine l := fun l hl => (h.line l hl).1
  obtain ⟨e, he, hlen, hlines⟩ := headEnd_joinLines hline (List.cons_ne_nil _ _) []
  rw [List.append_nil] at he hlines
  have hhead : 0 ∉ joinLines (requestLine :: hs) ++ crlf := by
    have hcrlf : 0 ∉ crlf := by decide
    apply List.not_mem_append _ hcrlf
    intro hmem
    obtain ⟨l, hl, hmem⟩ := List.mem_flatMap.mp hmem
    exact (List.mem_append.mp hmem).elim (h.line l hl).2 hcrlf
  have hwhole : WholeHead (joinLines (requestLine :: hs) ++ crlf) := by
    refine ⟨hhead, ?_⟩
    rw [findHttpHeaderEnd_eq, he, Option.map_some, hlen]
  obtain ⟨req, hreq⟩ := (readLines_isOk_iff fun l hl => (h.line l hl).2).mpr h.fits
  refine ⟨req, readLines_parsed hreq, ?_⟩
  rw [requestBytes, parse_wholeHead hwhole (cstr_append hhead), headLines_of_end he, hlines, hreq]
  rfl

/-- The return value, the body and its length for a verdict on the text `c`. -/
def verdictOutcome (c : Bytes) : Option Bool → Int × Option Bytes × Nat
  | none => (0, none, 0)
  | some true => (0, some c, c.length)
  | some false => (-1, none, 0)

theorem verdictOutcome_injective (c : Bytes) : Function.Injective (verdictOutcome c) := by
  intro v v' h
  match v, v' with
  | none, none | some true, some true | some false, some false => rfl
  | none, some true | none, some false | some true, none | some true, some false
  | some false, none | some false, some true => simp [verdictOutcome] at h

theorem parseBody_outcome (hreq : ParsedHead requestLine hs req)
    (hfits : ∀ k line, hs[k]? = some line → HeaderLineFits k line) (c : Bytes) :
    ∃ code req', parseBody c req = (code, req') ∧ req'.method = req.method ∧
      req'.path = req.path ∧ req'.version = req.version ∧ req'.h = req.h ∧
      (code, req'.body, req'.bodyLength) = verdictOutcome c (bodyVerdict hs c) := by
  rw [parseBody_eq hreq hfits]
  have hbody := hreq.body
  have hlength := hreq.bodyLength
  cases bodyVerdict hs c with
  | none => exact ⟨0, req, rfl, rfl, rfl, rfl, rfl, by simp [verdictOutcome, hbody, hlength]⟩
  | some verdict =>
    cases verdict with
    | false => exact ⟨-1, req, rfl, rfl, rfl, rfl, rfl, by simp [verdictOutcome, hbody, hlength]⟩
    | true => exact ⟨0, _, rfl, rfl, rfl, rfl, rfl, rfl⟩

theorem shouldClose_of_slots {req' : HttpRequest} (h : req'.h = req.h) :
    shouldCloseConnection req' = shouldCloseConnection req := by
  unfold shouldCloseConnection
  rw [h]

/-- Two heads with the same request line have the same outcome exactly when both searches
come to the same. -/
theorem sameOutcome_iff (h : ProperHead requestLine hs) (h' : ProperHead requestLine hs')
    (body : Bytes) :
    SameOutcome (requestBytes requestLine hs body) (requestBytes requestLine hs' body) ↔
      bodyVerdict hs (cstr body) = bodyVerdict hs' (cstr body) ∧ closesAfter hs = closesAfter hs' := by
  obtain ⟨req, hreq, hparse⟩ := parse_requestBytes h body
  obtain ⟨req', hreq', hparse'⟩ := parse_requestBytes h' body
  obtain ⟨code, r, hbody, hmethod, hpath, hversion, hslots, hverdict⟩ :=
    parseBody_outcome hreq h.fits.headerLine (cstr body)
  obtain ⟨code', r', hbody', hmethod', hpath', hversion', hslots', hverdict'⟩ :=
    parseBody_outcome hreq' h'.fits.headerLine (cstr body)
  have hclose : shouldCloseConnection r = closesAfter hs :=
    (shouldClose_of_slots hslots).trans (shouldClose_eq hreq h.fits.headerLine)
  have hclose' : shouldCloseConnection r' = closesAfter hs' :=
    (shouldClose_of_slots hslots').trans (shouldClose_eq hreq' h'.fits.headerLine)
  rw [hbody] at hparse
  rw [hbody'] at hparse'
  constructor
  · rintro ⟨_, _, _, _, hp, hp', hcode, -, -, -, hb, hl, hc⟩
    obtain ⟨rfl, rfl⟩ := Prod.mk.inj (Except.ok.inj (hparse.symm.trans hp))
    obtain ⟨rfl, rfl⟩ := Prod.mk.inj (Except.ok.inj (hparse'.symm.trans hp'))
    refine ⟨verdictOutcome_injective (cstr body) ?_, ?_⟩
    · rw [← hverdict, ← hverdict', hcode, hb, hl]
    · rw [← hclose, ← hclose', hc]
  · rintro ⟨hv, hc⟩
    rw [hv, ← hverdict'] at hverdict
    simp only [Prod.mk.injEq] at hverdict
    obtain ⟨hcode, hb, hl⟩ := hverdict
    refine ⟨code, r, code', r', hparse, hparse', hcode, ?_, ?_, ?_, hb, hl, ?_⟩
    · apply CField.ext_bytes
      rw [hmethod, hmethod', hreq.method, hreq'.method]
    · apply CField.ext_bytes
      rw [hpath, hpath', hreq.path, hreq'.path]
    · apply CField.ext_bytes
      rw [hversion, hversion', hreq.version, hreq'.version]
    · rw [hclose, hclose', hc]

end Head

section Insert
variable {requestLine line name value : Bytes} {before after : List Bytes}

theorem PlainHeader.named (h : PlainHeader line name value) : fieldName line = name := by
  obtain ⟨ows, ows', rfl, -⟩ := h.text
  apply takeWhile_append_stop
  · intro b hb
    simpa using (h.nameBytes b hb).2.1
  · simp

/-- A header line with a value is stored as its name and value. -/
theorem PlainHeader.stored (h : PlainHeader line name value) :
    storedField line = if value = [] then none else some (name, value) := by
  have hname := h.named
  obtain ⟨ows, ows', rfl, hows⟩ := h.text
  have hblank : ∀ b ∈ ows ++ ows', isspace b = true := by
    intro b hb
    rcases hows b hb with rfl | rfl <;> rfl
  have hdrop : (name ++ 58 :: (ows ++ value ++ ows')).drop (name.length + 1) =
      ows ++ (value ++ ows') := by
    rw [← List.drop_drop, List.drop_left, List.append_assoc]
    rfl
  unfold storedField
  rw [hname, if_neg h.nonempty, fieldValue, hname, hdrop,
    words_blank_append fun b hb => hblank b (List.mem_append_left _ hb)]
  by_cases hvalue : value = []
  · have hrest : (ows' ++ []).dropWhile isspace = [] := by
      rw [List.append_nil, List.dropWhile_eq_nil_iff]
      exact fun b hb => hblank b (List.mem_append_right _ hb)
    rw [if_pos hvalue, hvalue, List.nil_append, ← List.append_nil ows', words_of_blank hrest]
    rfl
  · have hnext : ∀ b ∈ ows'.head?, isspace b = true := fun b hb =>
      hblank b (List.mem_append_right _ (List.mem_of_mem_head? hb))
    rw [if_neg hvalue, words_append hvalue (fun b hb => (h.valueBytes b hb).1) hnext]
    rfl

theorem PlainHeader.isLine (h : PlainHeader line name value) : IsLine line ∧ 0 ∉ line := by
  obtain ⟨ows, ows', rfl, hows⟩ := h.text
  have hbyte : ∀ b ∈ name ++ 58 :: (ows ++ value ++ ows'), b ≠ 13 ∧ b ≠ 0 := by
    intro b hb
    simp only [List.mem_append, List.mem_cons] at hb hows
    obtain hb | rfl | (hb | hb) | hb := hb
    · obtain ⟨hsolid, -, h0⟩ := h.nameBytes b hb
      refine ⟨?_, h0⟩
      rintro rfl
      cases hsolid
    · decide
    · rcases hows b (.inl hb) with rfl | rfl <;> decide
    · obtain ⟨hsolid, h0⟩ := h.valueBytes b hb
      refine ⟨?_, h0⟩
      rintro rfl
      cases hsolid
    · rcases hows b (.inr hb) with rfl | rfl <;> decide
  refine ⟨.of_notMem (by simp) ?_, ?_⟩
  · exact fun hmem => (hbyte 13 hmem).1 rfl
  · exact fun hmem => (hbyte 0 hmem).2 rfl

/-- With 19 lines there is room for one more. -/
theorem ProperHead.insert (h : ProperHead requestLine (before ++ after))
    (hline : PlainHeader line name value) (hcount : (before ++ after).length ≤ 19) :
    ProperHead requestLine (before ++ line :: after) where
  line := by
    intro l hl
    simp only [List.mem_cons, List.mem_append] at hl
    obtain rfl | hl | rfl | hl := hl
    · exact h.line l List.mem_cons_self
    · exact h.line l (List.mem_cons_of_mem _ (List.mem_append_left _ hl))
    · exact hline.isLine
    · exact h.line l (List.mem_cons_of_mem _ (List.mem_append_right _ hl))
  fits := by
    refine ⟨h.fits.requestLine, fun k l hl => ?_⟩
    have hk : k < 20 := by
      have hlt := (List.getElem?_eq_some_iff.mp hl).1
      simp only [List.tail_cons, List.length_append, List.length_cons] at hlt hcount
      omega
    have hmem : l ∈ before ++ after ∨ l = line := by
      have hl' := List.mem_of_getElem? hl
      simp only [List.tail_cons, List.mem_append, List.mem_cons] at hl' ⊢
      tauto
    rcases hmem with hmem | rfl
    · obtain ⟨j, hj⟩ := List.mem_iff_getElem?.mp hmem
      have hfits := h.fits.headerLine j l hj
      exact ⟨hfits.name, fun field hfield => ⟨(hfits.value field hfield).1, hk⟩⟩
    · refine ⟨by rw [hline.named]; exact hline.fits.1, fun field hfield => ⟨?_, hk⟩⟩
      rw [hline.stored] at hfield
      split at hfield
      · cases hfield
      · cases hfield
        exact hline.fits.2

theorem find?_insert (hline : PlainHeader line name value) (p : Bytes × Bytes → Bool) :
    ((before ++ line :: after).filterMap storedField).find? p =
      ((before.filterMap storedField).find? p).or
        (if p (name, value) = true ∧ value ≠ [] then some (name, value)
          else (after.filterMap storedField).find? p) := by
  rw [List.filterMap_append, List.find?_append, List.filterMap_cons, hline.stored]
  by_cases hvalue : value = []
  · simp [hvalue]
  · by_cases hp : p (name, value) = true
    · simp [hvalue, hp]
    · simp [hvalue, hp]

/-- What is made of the first match stays the same exactly when the line is not the first match
or makes the same. -/
theorem find?_insert_iff {γ : Type} (before after : List Bytes)
    (hline : PlainHeader line name value) (p : Bytes × Bytes → Bool)
    (g : Option (Bytes × Bytes) → γ) :
    g (((before ++ after).filterMap storedField).find? p) =
        g (((before ++ line :: after).filterMap storedField).find? p) ↔
      (p (name, value) = true → value ≠ [] →
        (before.filterMap storedField).find? p = none →
        g ((after.filterMap storedField).find? p) = g (some (name, value))) := by
  rw [find?_insert hline, List.filterMap_append, List.find?_append]
  cases (before.filterMap storedField).find? p with
  | some field => simp
  | none =>
    by_cases hp : p (name, value) = true ∧ value ≠ []
    · simp [hp]
    · rw [if_neg hp]
      exact iff_of_true rfl fun h h' => absurd ⟨h, h'⟩ hp

/-- One more header line changes nothing of the outcome exactly when it captures neither search,
or captures it with the same effect. -/
theorem sameOutcome_insert_iff (h : ProperHead requestLine (before ++ after))
    (hline : PlainHeader line name value) (hcount : (before ++ after).length ≤ 19) (body : Bytes) :
    SameOutcome (requestBytes requestLine (before ++ after) body)
        (requestBytes requestLine (before ++ line :: after) body) ↔
      Unrelated before after name value (cstr body) := by
  rw [sameOutcome_iff h (h.insert hline hcount)]
  generalize cstr body = c
  -- each of the two searches reads on past the line unless it captures it
  have hclose : closesAfter (before ++ after) = closesAfter (before ++ line :: after) ↔
      (isConnection (name, value) = true → value ≠ [] → connectionField before = none →
        closesAfter after = asksToClose value) :=
    find?_insert_iff before after hline isConnection fun found =>
      (found.map fun field : Bytes × Bytes => asksToClose field.2).getD true
  have hverdict : bodyVerdict (before ++ after) c = bodyVerdict (before ++ line :: after) c ↔
      (isContentLength (name, value) = true → value ≠ [] → contentLengthField before = none →
        bodyVerdict after c = if c = [] then none else some (decide (MeasuresBody value c))) :=
    find?_insert_iff before after hline isContentLength fun found =>
      if c = [] then none else found.map fun field : Bytes × Bytes => decide (MeasuresBody field.2 c)
  have hsame : (bodyVerdict after c = if c = [] then none else some (decide (MeasuresBody value c))) ↔
      (c ≠ [] → ∃ field, contentLengthField after = some field ∧
        (MeasuresBody value c ↔ MeasuresBody field.2 c)) := by
    unfold bodyVerdict
    by_cases hc : c = []
    · simp [hc]
    · rw [if_neg hc, if_neg hc, Option.map_eq_some_iff]
      simp only [ne_eq, hc, not_false_eq_true, forall_const, decide_eq_decide, iff_comm]
  rw [hverdict, hclose, hsame]
  constructor
  · rintro ⟨hcl, hconn⟩
    exact ⟨hcl, fun hp hv hb => (hconn hp hv hb).symm⟩
  · intro hu
    exact ⟨hu.contentLength, fun hp hv hb => (hu.connection hp hv hb).symm⟩

end Insert

theorem ProperHead.of_readLines {requestLine : Bytes} {hs : List Bytes}
    (hline : ∀ l ∈ requestLine :: hs, (l ≠ [] ∧ 13 ∉ l) ∧ 0 ∉ l)
    (hread : (readLines (requestLine :: hs)).toBool = true) : ProperHead requestLine hs where
  line := fun l hl => ⟨.of_notMem (hline l hl).1.1 (hline l hl).1.2, (hline l hl).2⟩
  fits := headFits_of_toBool (fun l hl => (hline l hl).2) hread

theorem sameOutcome_insert_iff_host :
    SameOutcome (requestBytes (ascii "GET / HTTP/1.1") ([] ++ [ascii "Connection: keep-alive"]) [])
        (requestBytes (ascii "GET / HTTP/1.1")
          ([] ++ ascii "Host: a" :: [ascii "Connection: keep-alive"]) []) ↔
      Unrelated [] [ascii "Connection: keep-alive"] (ascii "Host") (ascii "a") (cstr []) := by
  have hhead : ProperHead (ascii "GET / HTTP/1.1") ([] ++ [ascii "Connection: keep-alive"]) :=
    .of_readLines (by decide +kernel) (by decide +kernel)
  have hline : PlainHeader (ascii "Host: a") (ascii "Host") (ascii "a") :=
    ⟨⟨[32], [], by decide, by decide +kernel⟩, by decide, by decide +kernel, by decide +kernel, by decide⟩
  exact sameOutcome_insert_iff hhead hline (by decide) []

/-- A header named `Connection-Id` takes the place of the one named `Connection`. -/
theorem connection_id_captures :
    ¬ ∀ requestLine before after line name value body, ProperHead requestLine (before ++ after) →
      (before ++ after).length ≤ 19 → PlainHeader line name value →
      sameNoCase name (ascii "Content-Length") = false →
      sameNoCase name (ascii "Connection") = false →
      SameOutcome (requestBytes requestLine (before ++ after) body)
        (requestBytes requestLine (before ++ line :: after) body) := by
  intro h
  let after := [ascii "Connection: keep-alive"]
  have hhead : ProperHead (ascii "GET / HTTP/1.1") ([] ++ after) :=
    .of_readLines (by decide +kernel) (by decide +kernel)
  have hline : PlainHeader (ascii "Connection-Id: 7") (ascii "Connection-Id") (ascii "7") :=
    ⟨⟨[32], [], by decide, by decide +kernel⟩, by decide, by decide +kernel, by decide +kernel, by decide⟩
  have hcount : ([] ++ after).length ≤ 19 := by decide
  have hsame := h _ [] after _ _ _ [] hhead hcount hline (by decide +kernel) (by decide +kernel)
  obtain ⟨-, hclose⟩ := (sameOutcome_iff hhead (hhead.insert hline hcount) []).mp hsame
  exact absurd hclose (by decide +kernel)

end MinhServer
