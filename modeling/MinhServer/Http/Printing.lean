import MinhServer.Http.Head

namespace MinhServer
open CString

theorem Headers.ext_text {a b : Headers} (h : a.text = b.text) : a = b := by
  cases a
  cases b
  obtain ⟨hkey, hvalue⟩ := Prod.mk.inj h
  exact congrArg₂ Headers.mk (CField.ext_bytes hkey) (CField.ext_bytes hvalue)

/-- A word for a `char[n]`. -/
structure Token (n : Nat) where
  text : CField n
  nonempty : text.bytes ≠ []
  solid : ∀ b ∈ text.bytes, isspace b = false

/-- A name and a value for one header slot. -/
structure HeaderField where
  name : CField 256
  nonempty : name.bytes ≠ []
  oneLine : 58 ∉ name.bytes ∧ 13 ∉ name.bytes ∧ 10 ∉ name.bytes
  value : Token 256

structure RequestText where
  method : Token 16
  path : Token 256
  version : Token 16
  headers : List HeaderField
  fits : headers.length ≤ 20

/-- `K: W` -/
def HeaderField.line (field : HeaderField) : Bytes :=
  field.name.bytes ++ ascii ": " ++ field.value.text.bytes

/-- `M P V` -/
def RequestText.requestLine (text : RequestText) : Bytes :=
  text.method.text.bytes ++ ascii " " ++ text.path.text.bytes ++ ascii " " ++ text.version.text.bytes

def RequestText.print (text : RequestText) : Bytes :=
  joinLines (text.requestLine :: text.headers.map HeaderField.line) ++ crlf

def HeaderField.slot (field : HeaderField) : Headers := ⟨field.name, field.value.text⟩

def RequestText.request (text : RequestText) : HttpRequest where
  method := text.method.text
  path := text.path.text
  version := text.version.text
  h k := (text.headers[k.val]?.map HeaderField.slot).getD .zeroed
  body := none
  bodyLength := 0

section Lines
variable {n : Nat}

theorem Token.notMem_cr (token : Token n) : 13 ∉ token.text.bytes := by
  intro hmem
  have hsolid := token.solid 13 hmem
  exact absurd hsolid (by decide)

theorem Token.words_append (token : Token n) {rest : Bytes}
    (hrest : ∀ b ∈ rest.head?, isspace b = true) :
    words (token.text.bytes ++ rest) = token.text.bytes :: words rest :=
  CString.words_append token.nonempty token.solid hrest

theorem words_blank_cons (s : Bytes) : words (ascii " " ++ s) = words s :=
  words_blank_append (by decide +kernel) s

theorem Token.words_self (token : Token n) : words token.text.bytes = [token.text.bytes] := by
  have hnil : words [] = [] := words_of_blank rfl
  have h : words (token.text.bytes ++ []) = _ := token.words_append (by simp)
  rwa [List.append_nil, hnil] at h

theorem RequestText.words_requestLine (text : RequestText) :
    words text.requestLine =
      [text.method.text.bytes, text.path.text.bytes, text.version.text.bytes] := by
  have hblank : ∀ s : Bytes, ∀ b ∈ (ascii " " ++ s).head?, isspace b = true := by
    intro s b hb
    cases hb
    rfl
  rw [requestLine, List.append_assoc, List.append_assoc, List.append_assoc,
    text.method.words_append (hblank _), words_blank_cons, text.path.words_append (hblank _),
    words_blank_cons, text.version.words_self]

variable (field : HeaderField)

theorem HeaderField.line_eq :
    field.line = field.name.bytes ++ 58 :: (ascii " " ++ field.value.text.bytes) := by
  rw [HeaderField.line, List.append_assoc]
  rfl

theorem HeaderField.fieldName_line : fieldName field.line = field.name.bytes := by
  rw [field.line_eq]
  apply takeWhile_append_stop
  · intro b hb
    have hne : b ≠ 58 := fun heq => field.oneLine.1 (heq ▸ hb)
    simpa using hne
  · simp

theorem HeaderField.fieldValue_line : fieldValue field.line = some field.value.text.bytes := by
  have hdrop : field.line.drop (field.name.bytes.length + 1) =
      ascii " " ++ field.value.text.bytes := by
    rw [field.line_eq, ← List.drop_drop, List.drop_left]
    rfl
  rw [fieldValue, field.fieldName_line, hdrop, words_blank_cons, field.value.words_self]
  rfl

theorem HeaderField.storedField_line :
    storedField field.line = some (field.name.bytes, field.value.text.bytes) := by
  rw [storedField, field.fieldName_line, if_neg field.nonempty, field.fieldValue_line]
  rfl

theorem HeaderField.headerLineFits {k : Nat} (hk : k < 20) : HeaderLineFits k field.line where
  name := by
    rw [field.fieldName_line]
    exact Nat.lt_succ_iff.mp field.name.fits
  value := by
    intro stored hstored
    rw [field.storedField_line] at hstored
    cases hstored
    exact ⟨Nat.lt_succ_iff.mp field.value.text.fits, hk⟩

theorem HeaderField.line_plain : field.line ≠ [] ∧ 13 ∉ field.line ∧ 0 ∉ field.line := by
  have hcr := field.value.notMem_cr
  have h0 := field.value.text.noNul
  have hsep : 13 ∉ ascii ": " ∧ 0 ∉ ascii ": " := by decide
  refine ⟨by simp [field.line_eq], ?_, ?_⟩
  · simp [HeaderField.line, field.oneLine.2.1, hsep, hcr]
  · simp [HeaderField.line, field.name.noNul, hsep, h0]

end Lines

section Print
variable (text : RequestText)

theorem RequestText.line_plain : ∀ l ∈ text.requestLine :: text.headers.map HeaderField.line,
    l ≠ [] ∧ 13 ∉ l ∧ 0 ∉ l := by
  intro l hl
  rcases List.mem_cons.mp hl with rfl | hl
  · have hsep : 13 ∉ ascii " " ∧ 0 ∉ ascii " " := by decide
    refine ⟨by simp [requestLine, text.method.nonempty], ?_, ?_⟩
    · simp [requestLine, text.method.notMem_cr, text.path.notMem_cr, text.version.notMem_cr, hsep]
    · simp [requestLine, text.method.text.noNul, text.path.text.noNul, text.version.text.noNul, hsep]
  · obtain ⟨field, -, rfl⟩ := List.mem_map.mp hl
    exact field.line_plain

theorem RequestText.notMem_print : 0 ∉ text.print := by
  intro hmem
  have hcrlf : 0 ∉ crlf := by decide
  rcases List.mem_append.mp hmem with hmem | hmem
  · obtain ⟨l, hl, hmem⟩ := List.mem_flatMap.mp hmem
    exact (List.mem_append.mp hmem).elim (text.line_plain l hl).2.2 hcrlf
  · exact hcrlf hmem

theorem RequestText.headFits :
    HeadFits (text.requestLine :: text.headers.map HeaderField.line) where
  requestLine := by
    intro l hl
    obtain rfl : text.requestLine = l := by simpa using hl
    have hmethod := text.method.text.fits
    have hpath := text.path.text.fits
    have hversion := text.version.text.fits
    rw [text.words_requestLine, requestLineFits_iff]
    simp only [List.getElem?_cons_zero, List.getElem?_cons_succ, Option.mem_some, forall_eq']
    omega
  headerLine := by
    intro k l hl
    rw [List.tail_cons, List.getElem?_map, Option.map_eq_some_iff] at hl
    obtain ⟨field, hfield, rfl⟩ := hl
    have hk := (List.getElem?_eq_some_iff.mp hfield).1
    have hfits := text.fits
    exact field.headerLineFits (by omega)

theorem RequestText.request_eq {req : HttpRequest}
    (h : ParsedHead text.requestLine (text.headers.map HeaderField.line) req) :
    req = text.request := by
  obtain ⟨hmethod, hpath, hversion, hslot, hbody, hlength⟩ := h
  have hthree : ∀ i, requestToken (words text.requestLine) i = (words text.requestLine).getD i [] := by
    intro i
    rw [requestToken, if_neg]
    rw [text.words_requestLine]
    exact lt_irrefl 3
  rw [hthree, text.words_requestLine] at hmethod hpath hversion
  have hheaders : req.h = text.request.h := by
    funext k
    apply Headers.ext_text
    rw [hslot, slotText, List.getElem?_map]
    show _ = ((text.headers[k.val]?.map HeaderField.slot).getD .zeroed).text
    cases text.headers[k.val]? with
    | none => rfl
    | some field =>
      simp only [Option.map_some, Option.bind_some, field.storedField_line, Option.getD_some]
      rfl
  cases req
  simp only [RequestText.request, HttpRequest.mk.injEq]
  exact ⟨CField.ext_bytes hmethod, CField.ext_bytes hpath, CField.ext_bytes hversion, hheaders,
    hbody, hlength⟩

end Print

/-- A printed request is parsed to what was printed, whatever lies behind it in memory. -/
theorem parse_print (text : RequestText) (rest : Bytes) :
    parseHttpRequest (text.print ++ 0 :: rest) .zeroed = .ok (0, text.request) := by
  have hplain := text.line_plain
  have hls : ∀ l ∈ text.requestLine :: text.headers.map HeaderField.line, IsLine l :=
    fun l hl => .of_notMem (hplain l hl).1 (hplain l hl).2.1
  obtain ⟨e, he, hlen, hlines⟩ := headEnd_joinLines hls (List.cons_ne_nil _ _) []
  rw [List.append_nil, ← RequestText.print] at he hlines
  rw [← RequestText.print] at hlen
  have hcstr : cstr (text.print ++ 0 :: rest) = text.print := by
    rw [cstr_terminated, cstr_eq_self text.notMem_print]
  have hend : strstr (cstr (text.print ++ 0 :: rest)) headEnd = some e := by
    rw [hcstr, he]
  obtain ⟨req, hreq⟩ := (readLines_isOk_iff fun l hl => (hplain l hl).2.2).mpr text.headFits
  rw [parseHttpRequest_eq hend, hcstr, headLines_of_end he, hlines, hreq]
  have hdrop : text.print.drop (e + 4) = [] := by
    rw [hlen]
    exact List.drop_length
  rw [hdrop, text.request_eq (readLines_parsed hreq)]
  rfl

/-- The request a browser opens with is the text of a `RequestText`. -/
example : ∃ text : RequestText, text.print = ascii "GET / HTTP/1.1\r\nHost: a\r\n\r\n" := by
  let host : HeaderField :=
    { name := ⟨ascii "Host", by decide, by decide⟩
      nonempty := by decide
      oneLine := by decide
      value := ⟨⟨ascii "a", by decide, by decide⟩, by decide, by decide +kernel⟩ }
  let get : Token 16 := ⟨⟨ascii "GET", by decide, by decide⟩, by decide, by decide +kernel⟩
  let slash : Token 256 := ⟨⟨ascii "/", by decide, by decide⟩, by decide, by decide +kernel⟩
  let http : Token 16 := ⟨⟨ascii "HTTP/1.1", by decide, by decide⟩, by decide, by decide +kernel⟩
  exact ⟨⟨get, slash, http, [host], by decide⟩, by decide +kernel⟩

end MinhServer
