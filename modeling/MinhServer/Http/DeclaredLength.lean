import MinhServer.Framing
import MinhServer.Http.Head

namespace MinhServer
open CString

inductive Declared where
  | absent
  | rejected
  | undefined
  | length (n : Int)
  deriving DecidableEq, Repr

/-- The length `recvRequest` waits for: every answer of `getContentLength` but -1. -/
def framerDeclared (head : Bytes) : Declared :=
  let n := getContentLength head head.length
  if n = -1 then .absent else .length n

/-- The length `parseHttpRequest` compares with the body. -/
def parserDeclared (head : Bytes) : Declared :=
  match parseHttpRequest head .zeroed with
  | .error _ => .undefined
  | .ok (code, req) =>
    if code < 0 then .rejected
    else
      match req.contentLengthSlot with
      | none => .absent
      | some h =>
        match h.bodyLength with
        | none => .rejected
        | some n => .length n

/-- Both sides use `n`, or both reject. -/
def DeclaredLengthsAgree (head : Bytes) (n : Nat) : Prop :=
  (framerDeclared head = .length n ∧ parserDeclared head = .length n) ∨
    (framerDeclared head = .rejected ∧ parserDeclared head = .rejected)

/-- The name of a field begins with `Content-Length`, in any case. -/
def isContentLength (field : Bytes × Bytes) : Bool := eqNoCase field.1 (ascii "Content-Length") 14

/-- The first stored header whose name begins with `Content-Length`. -/
def contentLengthField (hs : List Bytes) : Option (Bytes × Bytes) :=
  (hs.filterMap storedField).find? isContentLength

structure WholeHead (head : Bytes) : Prop where
  noNul : 0 ∉ head
  ends : findHttpHeaderEnd head = some head.length

theorem parse_wholeHead {head body text : Bytes} (h : WholeHead head)
    (htext : cstr text = head ++ body) :
    parseHttpRequest text .zeroed = readLines (headLines head) >>= fun req =>
      .ok (parseBody body req) := by
  have hends := h.ends
  rw [findHttpHeaderEnd_eq] at hends
  obtain ⟨e, he, hlen⟩ := Option.map_eq_some_iff.mp hends
  have hend : strstr (cstr text) headEnd = some e := by
    rw [htext]
    exact strstr_append (by decide) he body
  have hlines : headLines (cstr text) = headLines head := by
    rw [headLines_of_end hend, headLines_of_end he, htext, List.take_append_of_le_length (by omega)]
  rw [parseHttpRequest_eq hend, hlines, htext, hlen, List.drop_left]

theorem WholeHead.line_noNul {head : Bytes} (h : WholeHead head) : ∀ l ∈ headLines head, 0 ∉ l :=
  fun _ hl => notMem_of_headLines h.noNul hl

theorem find?_slots {α β : Type} {p : β → Bool} {g : α → Option β} {e : β} (he : p e = false)
    {hs : List α} {n : Nat} {f : Fin n → β} (hf : ∀ k : Fin n, f k = (hs[k.val]?.bind g).getD e)
    (hrest : ∀ k, n ≤ k → hs[k]?.bind g = none) :
    (List.ofFn f).find? p = (hs.filterMap g).find? p := by
  induction n generalizing hs with
  | zero =>
    have hnil : hs.filterMap g = [] := by
      apply List.filterMap_eq_nil_iff.mpr
      intro a ha
      obtain ⟨k, hk⟩ := List.mem_iff_getElem?.mp ha
      have := hrest k (Nat.zero_le k)
      rwa [hk] at this
    rw [hnil, List.ofFn_zero]
  | succ n ih =>
    rw [List.ofFn_succ]
    cases hs with
    | nil =>
      have hall : ∀ k, f k = e := fun k => by simp [hf k]
      simp [hall, he]
    | cons a hs =>
      have htail : (List.ofFn fun k : Fin n => f k.succ).find? p = (hs.filterMap g).find? p :=
        ih (fun k => by simp [hf k.succ]) fun k hk => by simpa using hrest (k + 1) (by omega)
      have hhead : f 0 = (g a).getD e := by simp [hf 0]
      rw [List.find?_cons, htail, hhead]
      cases hg : g a with
      | none => simp [hg, he]
      | some b => simp [hg, List.find?_cons]

theorem find?_slot_text {p : Bytes × Bytes → Bool} (hp : p ([], []) = false) {requestLine : Bytes}
    {hs : List Bytes} {req : HttpRequest} (hreq : ParsedHead requestLine hs req)
    (hfits : ∀ k line, hs[k]? = some line → HeaderLineFits k line) :
    ((List.ofFn req.h).find? fun h => p h.text).map Headers.text =
      (hs.filterMap storedField).find? p := by
  have hrest : ∀ k, 20 ≤ k → hs[k]?.bind storedField = none := by
    intro k hk
    cases hl : hs[k]? with
    | none => rfl
    | some line =>
      cases hf : storedField line with
      | none => exact hf
      | some field =>
        have := (hfits k line hl).value field hf
        omega
  have hslots := find?_slots hp hreq.slot hrest
  have hofn : (List.ofFn fun k => (req.h k).text) = (List.ofFn req.h).map Headers.text := by
    rw [List.map_ofFn]
    rfl
  rw [← hslots, hofn, List.find?_map]
  rfl

theorem contentLengthSlot_text {requestLine : Bytes} {hs : List Bytes} {req : HttpRequest}
    (hreq : ParsedHead requestLine hs req)
    (hfits : ∀ k line, hs[k]? = some line → HeaderLineFits k line) :
    req.contentLengthSlot.map Headers.text = contentLengthField hs :=
  find?_slot_text (p := isContentLength) (by decide) hreq hfits

/-- `strtol` reads all of `value`, as the length of `c`. -/
def MeasuresBody (value c : Bytes) : Prop :=
  (strtol value).2 = [] ∧ (strtol value).1 % 2 ^ 64 = c.length

instance (value c : Bytes) : Decidable (MeasuresBody value c) := inferInstanceAs (Decidable (_ ∧ _))

/-- What becomes of the body text `c`: left where it is, accepted or rejected. -/
def bodyVerdict (hs : List Bytes) (c : Bytes) : Option Bool :=
  if c = [] then none else (contentLengthField hs).map fun field => decide (MeasuresBody field.2 c)

theorem measuresBody_iff {h : Headers} {c : Bytes} :
    MeasuresBody h.text.2 c ↔ h.bodyLength = some c.length := by
  unfold MeasuresBody Headers.bodyLength
  show (strtol h.value.bytes).2 = [] ∧ (strtol h.value.bytes).1 % 2 ^ 64 = c.length ↔ _
  obtain ⟨v, endptr⟩ := strtol h.value.bytes
  by_cases hend : endptr = []
  · simp only [hend, ↓reduceIte, Option.some.injEq, true_and]
    omega
  · simp [hend]

theorem parseBody_eq {requestLine : Bytes} {hs : List Bytes} {req : HttpRequest}
    (hreq : ParsedHead requestLine hs req)
    (hfits : ∀ k line, hs[k]? = some line → HeaderLineFits k line) (c : Bytes) :
    parseBody c req =
      match bodyVerdict hs c with
      | none => (0, req)
      | some true => (0, { req with bodyLength := c.length, body := some c })
      | some false => (-1, req) := by
  unfold parseBody bodyVerdict
  by_cases hc : c = []
  · rw [if_pos hc, if_pos hc]
  rw [if_neg hc, if_neg hc, ← contentLengthSlot_text hreq hfits]
  cases req.contentLengthSlot with
  | none => rfl
  | some h =>
    have hlength : decide (MeasuresBody h.text.2 c) = decide (h.bodyLength = some c.length) :=
      decide_eq_decide.mpr measuresBody_iff
    simp only [Option.map_some, hlength]
    cases h.bodyLength with
    | none => rfl
    | some m =>
      by_cases hm : m = c.length
      · simp [hm]
      · simp [hm]

/-- The first text `Content-Length:` of the head is followed by `rest`. -/
def FirstLengthText (head rest : Bytes) : Prop :=
  ∃ before, head = before ++ ascii "Content-Length:" ++ rest ∧
    ∀ j < before.length, ¬ ascii "Content-Length:" <+: head.drop j

/-- What has to hold of a head for both sides to read `n`. -/
structure LengthReadRight (head : Bytes) (n : Nat) : Prop where
  noNul : 0 ∉ head
  fits : HeadFits (headLines head)
  small : n < 2 ^ 31
  framer : ∃ rest, FirstLengthText head rest ∧
    decimal ((rest.dropWhile isspace).takeWhile isdigit) % 2 ^ 32 = n
  parser : ∃ name value, contentLengthField (headLines head).tail = some (name, value) ∧
    strtol value = ((n : Int), [])

theorem firstLengthText_iff {head rest : Bytes} :
    FirstLengthText head rest ↔
      ∃ i, strstr head (ascii "Content-Length:") = some i ∧ rest = head.drop (i + 15) := by
  have h15 : (ascii "Content-Length:").length = 15 := rfl
  constructor
  · rintro ⟨before, hhead, hfirst⟩
    refine ⟨before.length, (strstr_eq_some_iff ?_).mpr ⟨⟨rest, ?_⟩, hfirst⟩, ?_⟩
    · rw [hhead, List.append_assoc, List.length_append]
      omega
    · rw [hhead, List.append_assoc, List.drop_left]
    · have : before.length + 15 = (before ++ ascii "Content-Length:").length := by simp [h15]
      rw [this, hhead, List.drop_left]
  · rintro ⟨i, hi, rfl⟩
    have hle := strstr_end_le (by decide) hi
    have htake : (head.take i).length = i := by
      rw [List.length_take]
      omega
    refine ⟨head.take i, ?_, fun j hj => strstr_first hi (htake ▸ hj)⟩
    rw [List.append_assoc, ← h15, ← strstr_split hi, List.take_append_drop]

theorem getContentLength_of_found {head : Bytes} {i : Nat} (h0 : 0 ∉ head)
    (hi : strstr head (ascii "Content-Length:") = some i) :
    getContentLength head head.length =
      int32 (decimal (((head.drop (i + 15)).dropWhile isspace).takeWhile isdigit)) := by
  have hle := strstr_end_le (by decide) hi
  have h15 : (ascii "Content-Length:").length = 15 := rfl
  unfold getContentLength
  simp only [cstr_eq_self h0, hi, List.take_length, decimalInt32_eq]
  rw [if_neg (by omega)]

theorem framerDeclared_eq_iff {head : Bytes} {n : Nat} (h0 : 0 ∉ head) :
    framerDeclared head = .length n ↔ n < 2 ^ 31 ∧ ∃ rest, FirstLengthText head rest ∧
      decimal ((rest.dropWhile isspace).takeWhile isdigit) % 2 ^ 32 = n := by
  have hdeclared : framerDeclared head = .length n ↔ getContentLength head head.length = n := by
    unfold framerDeclared
    dsimp only
    split
    · next h =>
      rw [h]
      exact iff_of_false (by simp) (by omega)
    · simp
  rw [hdeclared]
  simp only [firstLengthText_iff]
  cases hs : strstr head (ascii "Content-Length:") with
  | none =>
    have hnone : getContentLength head head.length = -1 := by
      unfold getContentLength
      simp only [cstr_eq_self h0, hs]
    rw [hnone]
    exact iff_of_false (by omega) (by simp)
  | some i =>
    rw [getContentLength_of_found h0 hs, int32_eq_iff]
    simp

theorem bodyLength_eq_iff {h : Headers} {n : Nat} (hn : n < 2 ^ 31) :
    h.bodyLength = some n ↔ strtol h.value.bytes = ((n : Int), []) := by
  have hrange := strtol_range h.value.bytes
  unfold Headers.bodyLength
  revert hrange
  obtain ⟨v, endptr⟩ := strtol h.value.bytes
  intro hrange
  by_cases hend : endptr = []
  · simp only [hend, ↓reduceIte, Option.some.injEq, Prod.mk.injEq, and_true]
    simp only at hrange
    omega
  · simp [hend]

theorem strstr_cstr_of_nul {bytes : Bytes} {e : Nat} (he : strstr bytes headEnd = some e)
    (h0 : 0 ∈ bytes.take (e + 4)) : strstr (cstr bytes) headEnd = none := by
  cases hs : strstr (cstr bytes) headEnd with
  | none => rfl
  | some i =>
    obtain ⟨t, ht⟩ := cstr_isPrefix bytes
    have hle := strstr_end_le (by decide) hs
    have hsame := strstr_append (by decide) hs t
    rw [ht, he, Option.some.injEq] at hsame
    have hfour : headEnd.length = 4 := rfl
    rw [← ht, List.take_append_of_le_length (by omega)] at h0
    exact absurd (List.mem_of_mem_take h0) (zero_notMem_cstr bytes)

theorem parserDeclared_eq_iff {head : Bytes} {n : Nat} (h0 : 0 ∉ head) (hn : n < 2 ^ 31)
    (hend : findHttpHeaderEnd head = some head.length) :
    parserDeclared head = .length n ↔ HeadFits (headLines head) ∧
      ∃ name value, contentLengthField (headLines head).tail = some (name, value) ∧
        strtol value = ((n : Int), []) := by
  have hhead : WholeHead head := ⟨h0, hend⟩
  have hlines := hhead.line_noNul
  have htext : cstr head = head ++ [] := by rw [cstr_eq_self h0, List.append_nil]
  have hparse := parse_wholeHead hhead htext
  unfold parserDeclared
  rw [hparse]
  cases hread : readLines (headLines head) with
  | error fault =>
    have hnot : ¬ HeadFits (headLines head) := fun hf => by
      obtain ⟨req, hreq⟩ := (readLines_isOk_iff hlines).mpr hf
      simp [hread] at hreq
    exact iff_of_false (by simp [Bind.bind, Except.bind]) fun h => hnot h.1
  | ok req =>
    have hfits := (readLines_isOk_iff hlines).mp ⟨req, hread⟩
    have hslot := contentLengthSlot_text (readLines_parsed hread) hfits.headerLine
    have hbody : parseBody [] req = (0, req) := rfl
    rw [← hslot]
    change (match req.contentLengthSlot with
      | none => Declared.absent
      | some h => match h.bodyLength with
        | none => .rejected
        | some n => .length n) = .length n ↔ _
    cases hc : req.contentLengthSlot with
    | none => simp
    | some h =>
      have hread : (match h.bodyLength with
          | none => Declared.rejected
          | some m => .length m) = .length n ↔ h.bodyLength = some n := by
        cases h.bodyLength <;> simp
      refine hread.trans ((bodyLength_eq_iff hn).trans ?_)
      simp [hfits, Headers.text]

theorem parserDeclared_of_nul {head : Bytes} (hend : findHttpHeaderEnd head = some head.length)
    (h0 : 0 ∈ head) : parserDeclared head = .rejected := by
  rw [findHttpHeaderEnd_eq] at hend
  obtain ⟨e, he, hlen⟩ := Option.map_eq_some_iff.mp hend
  have hnone := strstr_cstr_of_nul he (by rwa [hlen, List.take_length])
  unfold parserDeclared parseHttpRequest
  simp [hnone]

theorem framerDeclared_ne_rejected (head : Bytes) : framerDeclared head ≠ .rejected := by
  unfold framerDeclared
  dsimp only
  split <;> simp

/-- Framer and parser both use `n` exactly on the heads that both read right. -/
theorem declared_lengths_agree_iff {head : Bytes} {n : Nat}
    (hend : findHttpHeaderEnd head = some head.length) :
    DeclaredLengthsAgree head n ↔ LengthReadRight head n := by
  unfold DeclaredLengthsAgree
  rw [or_iff_left fun h => framerDeclared_ne_rejected head h.1]
  by_cases h0 : 0 ∈ head
  · have hrejected := parserDeclared_of_nul hend h0
    exact iff_of_false (fun h => by simp [hrejected] at h) fun h => h.noNul h0
  · rw [framerDeclared_eq_iff h0]
    constructor
    · rintro ⟨⟨hn, hframer⟩, hparser⟩
      obtain ⟨hfits, hfield⟩ := (parserDeclared_eq_iff h0 hn hend).mp hparser
      exact ⟨h0, hfits, hn, hframer, hfield⟩
    · intro h
      exact ⟨⟨h.small, h.framer⟩, (parserDeclared_eq_iff h0 h.small hend).mpr ⟨h.fits, h.parser⟩⟩

theorem declared_lengths_agree_iff_post :
    let head := ascii "POST / HTTP/1.1\r\nContent-Length: 5\r\n\r\n"
    DeclaredLengthsAgree head 5 ↔ LengthReadRight head 5 :=
  declared_lengths_agree_iff (by decide +kernel)

/-- The line has a name, and it is `Content-Length` in any case. -/
def NamesContentLength (line : Bytes) : Prop :=
  58 ∈ line ∧ sameNoCase (fieldName line) (ascii "Content-Length") = true

/-- The text after the colon is the decimal number `n`, with white space around it. -/
def HasDecimalValue (line : Bytes) (n : Nat) : Prop :=
  ∃ ows digits ows', line.drop ((fieldName line).length + 1) = ows ++ digits ++ ows' ∧
    (∀ b ∈ ows ++ ows', isspace b = true) ∧ digits ≠ [] ∧ (∀ b ∈ digits, isdigit b = true) ∧
    decimal digits = n

/-- Exactly one header line is named `Content-Length`, and its value is `n`. -/
def DeclaresOnce (hs : List Bytes) (n : Nat) : Prop :=
  ∃ pre line post, hs = pre ++ line :: post ∧ NamesContentLength line ∧ HasDecimalValue line n ∧
    ∀ other ∈ pre ++ post, ¬ NamesContentLength other

/-- A name in lower case is seen by the parser and not by the framer. -/
theorem lower_case_name_disagrees :
    ¬ ∀ head n, findHttpHeaderEnd head = some head.length → (headLines head).tail.length ≤ 20 →
      DeclaresOnce (headLines head).tail n → DeclaredLengthsAgree head n := by
  intro h
  let line := ascii "content-length: 5"
  let head := ascii "POST / HTTP/1.1\r\ncontent-length: 5\r\n\r\n"
  have hlines : (headLines head).tail = [line] := by decide +kernel
  have hvalue : HasDecimalValue line 5 :=
    ⟨[32], [53], [], by decide, by decide +kernel, by decide, by decide +kernel, by decide⟩
  have honce : DeclaresOnce (headLines head).tail 5 :=
    ⟨[], line, [], hlines, ⟨by decide +kernel, by decide +kernel⟩, hvalue, by simp⟩
  have habsent : framerDeclared head = .absent := by decide +kernel
  obtain ⟨hframer, -⟩ | ⟨hframer, -⟩ := h head 5 (by decide +kernel) (by rw [hlines]; decide) honce
  · rw [habsent] at hframer
    cases hframer
  · rw [habsent] at hframer
    cases hframer

end MinhServer
