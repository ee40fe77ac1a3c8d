import MinhServer.Http.Request
import MinhServer.Protocol

namespace MinhServer
open CString

/-- The lines before the first CRLFCRLF; none without one. -/
def headLines (s : Bytes) : List Bytes :=
  match strstr s headEnd with
  | none => []
  | some headerEndPos => lines (s.take headerEndPos)

def fieldName (line : Bytes) : Bytes := line.takeWhile (· ≠ 58)

def fieldValue (line : Bytes) : Option Bytes :=
  (words (line.drop ((fieldName line).length + 1))).head?

/-- What a header line stores: its name and value, if it has both. -/
def storedField (line : Bytes) : Option (Bytes × Bytes) :=
  if fieldName line = [] then none else (fieldValue line).map (fieldName line, ·)

theorem sscanf_requestLine (line : Bytes) :
    sscanf requestLineScan line = (words line).take 3 := by
  simp only [requestLineScan, sscanf_space_str, sscanf_str, words_afterWord]
  cases words line with
  | nil => rfl
  | cons method rest =>
    cases rest with
    | nil => rfl
    | cons path rest =>
      cases rest with
      | nil => rfl
      | cons version rest => simp [sscanf]

theorem dropWhile_name_eq_nil {line : Bytes} (h : (line.dropWhile (· ≠ 58)).head? ≠ some 58) :
    line.dropWhile (· ≠ 58) = [] := by
  cases hd : line.dropWhile (· ≠ 58) with
  | nil => rfl
  | cons b t =>
    have hne : line.dropWhile (· ≠ 58) ≠ [] := by
      rw [hd]
      exact List.cons_ne_nil _ _
    have hb := List.head_dropWhile_not (· ≠ (58 : Byte)) hne
    simp only [hd, List.head_cons] at hb
    simp only [hd, List.head?_cons] at h
    exact absurd (by simpa using hb) h

theorem sscanf_headerLine (line : Bytes) :
    sscanf headerLineScan line =
      if fieldName line = [] then [] else fieldName line :: (fieldValue line).toList := by
  have hdrop : line.drop ((fieldName line).length + 1) = (line.dropWhile (· ≠ 58)).tail := by
    rw [← List.tail_drop, fieldName, drop_length_takeWhile]
  unfold headerLineScan
  rw [sscanf]
  change (if fieldName line = [] then [] else fieldName line :: _) = _
  refine if_congr Iff.rfl rfl (congrArg _ ?_)
  rw [sscanf, drop_length_takeWhile, fieldValue, hdrop]
  by_cases hcolon : (line.dropWhile (· ≠ 58)).head? = some 58
  · rw [if_pos hcolon, sscanf_space_str, sscanf_str]
    cases words (line.dropWhile (· ≠ 58)).tail with
    | nil => rfl
    | cons value rest => rfl
  · rw [if_neg hcolon, dropWhile_name_eq_nil hcolon, List.tail_nil, words_of_blank rfl]
    rfl

/-- The words of the request line fit `method`, `path` and `version`. -/
structure RequestLineFits (ws : List Bytes) : Prop where
  method : ∀ w ∈ ws[0]?, w.length ≤ 15
  path : ∀ w ∈ ws[1]?, w.length ≤ 255
  version : ∀ w ∈ ws[2]?, w.length ≤ 15

/-- Header line number `k`: its name fits a key; if it has a name and a value, the value
fits as well and there is a slot for them. -/
structure HeaderLineFits (k : Nat) (line : Bytes) : Prop where
  name : (fieldName line).length ≤ 255
  value : ∀ field ∈ storedField line, field.2.length ≤ 255 ∧ k < 20

structure HeadFits (ls : List Bytes) : Prop where
  requestLine : ∀ line ∈ ls.head?, RequestLineFits (words line)
  headerLine : ∀ k line, ls.tail[k]? = some line → HeaderLineFits k line

theorem notMem_word {line w : Bytes} (h0 : 0 ∉ line) (hw : w ∈ words line) : 0 ∉ w :=
  fun h => h0 ((mem_words hw).2 0 h).2

theorem notMem_fieldName {line : Bytes} (h0 : 0 ∉ line) : 0 ∉ fieldName line :=
  fun h => h0 (List.takeWhile_subset _ h)

theorem notMem_fieldValue {line w : Bytes} (h0 : 0 ∉ line) (hw : fieldValue line = some w) :
    0 ∉ w := by
  have hmem : w ∈ words (line.drop ((fieldName line).length + 1)) :=
    List.mem_of_mem_head? hw
  exact fun h => h0 (List.drop_subset _ _ ((mem_words hmem).2 0 h).2)

theorem requestLineFits_iff {ws : List Bytes} :
    RequestLineFits ws ↔ (∀ w ∈ ws[0]?, w.length ≤ 15) ∧ (∀ w ∈ ws[1]?, w.length ≤ 255) ∧
      ∀ w ∈ ws[2]?, w.length ≤ 15 :=
  ⟨fun h => ⟨h.method, h.path, h.version⟩, fun h => ⟨h.1, h.2.1, h.2.2⟩⟩

theorem parseRequestLine_isOk_iff {line : Bytes} (h0 : 0 ∉ line) (req : HttpRequest) :
    (∃ r, parseRequestLine line req = .ok r) ↔ RequestLineFits (words line) := by
  have hword : ∀ w ∈ words line, 0 ∉ w := fun w hw => notMem_word h0 hw
  unfold parseRequestLine
  rw [sscanf_requestLine, requestLineFits_iff]
  revert hword
  cases words line with
  | nil => simp
  | cons method rest =>
    cases rest with
    | nil =>
      intro hword
      simp [bind_eq_ok, CField.scanned_eq_ok_iff, CField.exists_bytes_iff, hword]
      omega
    | cons path rest =>
      cases rest with
      | nil =>
        intro hword
        simp [bind_eq_ok, CField.scanned_eq_ok_iff, CField.exists_bytes_iff, hword]
        omega
      | cons version rest =>
        intro hword
        simp [bind_eq_ok, CField.scanned_eq_ok_iff, CField.exists_bytes_iff, hword]
        omega

/-- The `i`-th token a request line stores: its words are kept only if there are three. -/
def requestToken (ws : List Bytes) (i : Nat) : Bytes :=
  if ws.length < 3 then [] else ws.getD i []

def Headers.text (h : Headers) : Bytes × Bytes := (h.key.bytes, h.value.bytes)

/-- What slot `k` holds after the header lines `hs`. -/
def slotText (hs : List Bytes) (k : Nat) : Bytes × Bytes :=
  (hs[k]?.bind storedField).getD ([], [])

/-- The request holds what its request line and the header lines so far say. -/
structure ParsedHead (requestLine : Bytes) (hs : List Bytes) (req : HttpRequest) : Prop where
  method : req.method.bytes = requestToken (words requestLine) 0
  path : req.path.bytes = requestToken (words requestLine) 1
  version : req.version.bytes = requestToken (words requestLine) 2
  slot : ∀ k : Fin 20, (req.h k).text = slotText hs k
  body : req.body = none
  bodyLength : req.bodyLength = 0

theorem parseRequestLine_short {line : Bytes} {req r : HttpRequest}
    (hlen : (words line).length < 3) (h : parseRequestLine line req = .ok r) : r = req := by
  unfold parseRequestLine at h
  rw [sscanf_requestLine] at h
  cases hw : words line with
  | nil =>
    simp only [hw, List.take_nil, Except.ok.injEq] at h
    exact h.symm
  | cons method rest =>
    cases rest with
    | nil =>
      simp only [hw, List.take_succ_cons, List.take_nil, bind_eq_ok, Except.ok.injEq] at h
      exact h.choose_spec.2.symm
    | cons path rest =>
      cases rest with
      | nil =>
        simp only [hw, List.take_succ_cons, List.take_nil, bind_eq_ok, Except.ok.injEq] at h
        obtain ⟨-, -, -, -, hr⟩ := h
        exact hr.symm
      | cons version rest =>
        simp only [hw, List.length_cons] at hlen
        omega

theorem exists_three {ws : List Bytes} (h : 2 < ws.length) :
    ∃ a b c rest, ws = a :: b :: c :: rest := by
  obtain ⟨a, ws, rfl⟩ := List.exists_cons_of_length_pos (by omega : 0 < ws.length)
  simp only [List.length_cons] at h
  obtain ⟨b, ws, rfl⟩ := List.exists_cons_of_length_pos (by omega : 0 < ws.length)
  simp only [List.length_cons] at h
  obtain ⟨c, ws, rfl⟩ := List.exists_cons_of_length_pos (by omega : 0 < ws.length)
  exact ⟨a, b, c, ws, rfl⟩

theorem parseRequestLine_parsed {line : Bytes} {r : HttpRequest}
    (h : parseRequestLine line .zeroed = .ok r) : ParsedHead line [] r := by
  by_cases hlen : (words line).length < 3
  · rw [parseRequestLine_short hlen h]
    have htoken : ∀ i, requestToken (words line) i = [] := fun i => if_pos hlen
    exact ⟨(htoken 0).symm, (htoken 1).symm, (htoken 2).symm, fun _ => rfl, rfl, rfl⟩
  · have hlen' : 2 < (words line).length := by omega
    obtain ⟨method, path, version, rest, hw⟩ := exists_three hlen'
    unfold parseRequestLine HttpRequest.zeroed at h
    simp only [sscanf_requestLine, hw, List.take_succ_cons, List.take_zero, bind_eq_ok,
      CField.scanned_eq_ok_iff, CField.zeroed_overwrite, Except.ok.injEq] at h
    obtain ⟨m, hm, p, hp, v, hv, rfl⟩ := h
    have htoken : ∀ i, requestToken (words line) i = (words line).getD i [] := fun i => if_neg hlen
    refine ⟨?_, ?_, ?_, fun _ => rfl, rfl, rfl⟩
    · rw [htoken, hw]
      exact hm
    · rw [htoken, hw]
      exact hp
    · rw [htoken, hw]
      exact hv

theorem setHeader_eq_ok_iff {req r : HttpRequest} {k : Nat} {key value : CField 256} :
    req.setHeader k key value = .ok r ↔ ∃ h : k < 20, r = req.withHeader ⟨k, h⟩ key value := by
  unfold HttpRequest.setHeader
  by_cases h : k < 20
  · simp [h, eq_comm]
  · simp [h]

/-- A header line is scanned without a fault exactly when it fits its slot. -/
theorem parseHeaderLine_isOk_iff {line : Bytes} (h0 : 0 ∉ line) (k : Nat) (req : HttpRequest) :
    (∃ r, parseHeaderLine line k req = .ok r) ↔ HeaderLineFits k line := by
  have hname := notMem_fieldName h0
  have hfits : HeaderLineFits k line ↔ (fieldName line).length ≤ 255 ∧
      ∀ field ∈ storedField line, field.2.length ≤ 255 ∧ k < 20 :=
    ⟨fun h => ⟨h.name, h.value⟩, fun h => ⟨h.1, h.2⟩⟩
  rw [hfits]
  unfold parseHeaderLine storedField
  rw [sscanf_headerLine]
  by_cases hn : fieldName line = []
  · simp [hn]
  · cases hv : fieldValue line with
    | none =>
      simp only [hn, ↓reduceIte, Option.toList_none, bind_eq_ok, CField.scanned_eq_ok_iff,
        Except.ok.injEq]
      constructor
      · rintro ⟨-, key, hkey, -⟩
        have := key.fits
        rw [← hkey]
        exact ⟨by omega, fun field hfield => by cases hfield⟩
      · rintro ⟨hlen, -⟩
        obtain ⟨key, hkey⟩ := CField.exists_bytes_iff.mpr
          ⟨hname, (by omega : (fieldName line).length < 256)⟩
        exact ⟨req, key, hkey, rfl⟩
    | some value =>
      have hvalue := notMem_fieldValue h0 hv
      simp only [hn, ↓reduceIte, Option.toList_some, bind_eq_ok, CField.scanned_eq_ok_iff,
        Option.map_some, Option.mem_some, forall_eq']
      constructor
      · rintro ⟨r, key, hkey, val, hval, hset⟩
        obtain ⟨hk, -⟩ := setHeader_eq_ok_iff.mp hset
        have := key.fits
        have := val.fits
        rw [← hkey, ← hval]
        omega
      · rintro ⟨hnamelen, hvaluelen, hk⟩
        obtain ⟨key, hkey⟩ := CField.exists_bytes_iff.mpr
          ⟨hname, (by omega : (fieldName line).length < 256)⟩
        obtain ⟨val, hval⟩ := CField.exists_bytes_iff.mpr ⟨hvalue, (by omega : value.length < 256)⟩
        exact ⟨_, key, hkey, val, hval, setHeader_eq_ok_iff.mpr ⟨hk, rfl⟩⟩

/-- A header line fills its slot and changes nothing else. -/
theorem parseHeaderLine_parsed {requestLine line : Bytes} {hs : List Bytes}
    {req r : HttpRequest} (hreq : ParsedHead requestLine hs req)
    (h : parseHeaderLine line hs.length req = .ok r) : ParsedHead requestLine (hs ++ [line]) r := by
  have hold : ∀ k : Fin 20, k.val ≠ hs.length → slotText (hs ++ [line]) k = slotText hs k := by
    intro k hk
    unfold slotText
    by_cases hlt : k.val < hs.length
    · rw [List.getElem?_append_left hlt]
    · rw [List.getElem?_eq_none (by simp; omega), List.getElem?_eq_none (by omega)]
  have hempty : slotText hs hs.length = ([], []) := by simp [slotText]
  have hnew : slotText (hs ++ [line]) hs.length = (storedField line).getD ([], []) := by
    simp [slotText]
  have hsame : storedField line = none →
      ∀ k : Fin 20, (req.h k).text = slotText (hs ++ [line]) k := by
    intro hnone k
    by_cases hk : k.val = hs.length
    · rw [hreq.slot, hk, hnew, hnone, hempty]
      rfl
    · rw [hreq.slot, hold k hk]
  unfold parseHeaderLine at h
  rw [sscanf_headerLine] at h
  by_cases hn : fieldName line = []
  · have hnone : storedField line = none := if_pos hn
    simp only [hn, ↓reduceIte, Except.ok.injEq] at h
    subst h
    exact { hreq with slot := hsame hnone }
  · cases hv : fieldValue line with
    | none =>
      have hnone : storedField line = none := by simp [storedField, hn, hv]
      simp only [hn, ↓reduceIte, hv, Option.toList_none, bind_eq_ok, Except.ok.injEq] at h
      obtain ⟨-, -, rfl⟩ := h
      exact { hreq with slot := hsame hnone }
    | some value =>
      have hsome : storedField line = some (fieldName line, value) := by simp [storedField, hn, hv]
      simp only [hn, ↓reduceIte, hv, Option.toList_some, bind_eq_ok,
        CField.scanned_eq_ok_iff] at h
      obtain ⟨key, hkey, val, hval, hset⟩ := h
      obtain ⟨hk, rfl⟩ := setHeader_eq_ok_iff.mp hset
      refine { hreq with slot := fun k => ?_ }
      by_cases hkk : k = ⟨hs.length, hk⟩
      · have hzero := hreq.slot k
        rw [hkk] at hzero
        simp only [Headers.text, hempty, Prod.mk.injEq] at hzero
        rw [hkk]
        simp only [Headers.text, HttpRequest.withHeader, Function.update_self, CField.overwrite,
          hzero, List.drop_nil,
          List.append_nil, hkey, hval, hnew, hsome, Option.getD_some]
      · have hne : k.val ≠ hs.length := fun he => hkk (Fin.ext he)
        simp only [HttpRequest.withHeader, Function.update_of_ne hkk, hreq.slot, hold k hne]

/-- The header lines `ls`, stored from slot `k` on. -/
def storeLines : List Bytes → Nat → HttpRequest → Except Fault HttpRequest
  | [], _, req => .ok req
  | line :: ls, k, req => do
    let req ← parseHeaderLine line k req
    storeLines ls (k + 1) req

/-- `left` is the distance to the first CRLFCRLF, or nothing of the head is left. -/
def AtHead (newLine : Bytes) (left : Nat) : Prop := left = 0 ∨ strstr newLine headEnd = some left

theorem exists_lineEnd {s : Bytes} {left : Nat} (h : strstr s headEnd = some left) :
    ∃ n, strstr s crlf = some n ∧ (n + 2 ≤ left ∨ n = left) := by
  have hle := strstr_end_le (by decide) h
  obtain ⟨t, ht⟩ := strstr_found h
  have hcrlf : crlf <+: s.drop left := ⟨[13, 10] ++ t, by rw [← ht]; rfl⟩
  obtain ⟨n, hn, hline⟩ := strstr_isSome_of_prefix (by omega) hcrlf
  refine ⟨n, hline, ?_⟩
  rcases Nat.lt_or_eq_of_le hn with hlt | heq
  · refine .inl ?_
    by_contra hno
    have hleft1 : left = n + 1 := by omega
    obtain ⟨u, hu⟩ := strstr_found hline
    have hdrop : s.drop left = 10 :: u := by
      rw [hleft1, ← List.drop_drop, ← hu]
      rfl
    rw [hdrop] at ht
    exact absurd (List.cons.inj ht).1 (by decide)
  · exact .inr heq

/-- A line of the head goes up to its end or is followed by another one: its line end does not
touch the blank line. -/
theorem exists_lineCut {text : Bytes} {left : Nat} (h : strstr text headEnd = some left) :
    ∃ n, strstr text crlf = some n ∧
      (n = left ∨ n + 2 < left ∧ strstr (text.drop (n + 2)) headEnd = some (left - (n + 2))) := by
  have hle := strstr_end_le (by decide) h
  obtain ⟨n, hline, hroom | rfl⟩ := exists_lineEnd h
  · have hbehind : n + 2 ≠ left := by
      rintro rfl
      -- the CRLF of the line and the first half of the blank line would be an earlier head end
      have hearlier : headEnd <+: text.drop n := by
        have htwo : crlf.length = 2 := rfl
        refine ⟨[13, 10] ++ text.drop (n + 2 + headEnd.length), ?_⟩
        rw [strstr_split hline, htwo, strstr_split h]
        rfl
      exact strstr_first h (by omega) hearlier
    refine ⟨n, hline, .inr ⟨by omega, ?_⟩⟩
    refine (strstr_eq_some_iff (by rw [List.length_drop]; omega)).mpr ⟨?_, fun j hj hc => ?_⟩
    · rw [List.drop_drop, Nat.add_sub_cancel' hroom]
      exact strstr_found h
    · rw [List.drop_drop] at hc
      exact strstr_first h (by omega) hc
  · exact ⟨n, hline, .inl rfl⟩

/-- Before the end of the head the loop finds the end of a line, and after the line it is
again in front of the end of the head, or done. -/
theorem headCut {newLine : Bytes} {left : Nat} (hleft : left ≠ 0) (h : AtHead newLine left) :
    ∃ n, strstr newLine crlf = some n ∧ n ≤ left ∧
      lines (newLine.take left) =
        newLine.take n :: lines ((newLine.drop (n + 2)).take (left - (n + 2))) ∧
      AtHead (newLine.drop (n + 2)) (left - (n + 2)) := by
  have hend : strstr newLine headEnd = some left := h.resolve_left hleft
  have hle := strstr_end_le (by decide) hend
  simp only [headEnd, List.length_cons, List.length_nil] at hle
  obtain ⟨n, hline, rfl | ⟨hroom, hrest⟩⟩ := exists_lineCut hend
  · refine ⟨n, hline, le_rfl, ?_⟩
    have hnone : strstr (newLine.take n) [13, 10] = none := by
      cases hs : strstr (newLine.take n) [13, 10] with
      | none => rfl
      | some m =>
        have hm := strstr_end_le (by decide) hs
        simp only [List.length_take, List.length_cons, List.length_nil] at hm
        have := strstr_append (by decide) hs (newLine.drop n)
        rw [List.take_append_drop] at this
        have hmn : some m = some n := this.symm.trans hline
        simp only [Option.some.injEq] at hmn
        omega
    have hne : newLine.take n ≠ [] := by
      intro he
      rcases List.take_eq_nil_iff.mp he with h0 | h0
      · exact hleft h0
      · simp only [h0, List.length_nil] at hle
        omega
    have hzero : n - (n + 2) = 0 := by omega
    refine ⟨?_, .inl hzero⟩
    rw [lines_of_none hnone, if_neg hne, hzero, List.take_zero, lines_of_none (by decide),
      if_pos rfl]
  · -- a line end before the end of the head
    refine ⟨n, hline, by omega, ?_, .inr hrest⟩
    have hcut : strstr (newLine.take left) [13, 10] = some n :=
      strstr_take (by decide) hline hroom.le
    rw [lines_of_some hcut, List.take_take, Nat.min_eq_left (by omega), List.drop_take]

theorem parseLines_zero (newLine : Bytes) (i k : Nat) (req : HttpRequest) :
    parseLines newLine 0 i k req = .ok req := by
  rw [parseLines, if_pos rfl]

theorem parseLines_step {newLine : Bytes} {left n i k : Nat} {req : HttpRequest}
    (hleft : left ≠ 0) (hn : strstr newLine crlf = some n) :
    parseLines newLine left i k req =
      if i = 1 then parseRequestLine (newLine.take n) req >>=
        parseLines (newLine.drop (n + 2)) (left - (n + 2)) (i + 1) k
      else parseHeaderLine (newLine.take n) k req >>=
        parseLines (newLine.drop (n + 2)) (left - (n + 2)) (i + 1) (k + 1) := by
  rw [parseLines, if_neg hleft]
  split
  · simp_all
  · simp_all

theorem parseLines_eq_storeLines {newLine : Bytes} {left i k : Nat} {req : HttpRequest}
    (hi : i ≠ 0) (h : AtHead newLine left) :
    parseLines newLine left (i + 1) k req = storeLines (lines (newLine.take left)) k req := by
  induction hm : left using Nat.strong_induction_on generalizing newLine left i k req with
  | _ m ih =>
  subst hm
  by_cases hleft : left = 0
  · subst hleft
    rw [parseLines_zero, List.take_zero, lines_of_none (by decide), if_pos rfl, storeLines]
  · obtain ⟨n, hn, hle, hlines, hnext⟩ := headCut hleft h
    rw [parseLines_step hleft hn, if_neg (by omega), hlines, storeLines]
    congr 1
    funext req'
    exact ih _ (by omega) (by omega) hnext rfl

theorem storeLines_isOk_iff {ls : List Bytes} (h0 : ∀ line ∈ ls, 0 ∉ line) (k : Nat)
    (req : HttpRequest) :
    (∃ r, storeLines ls k req = .ok r) ↔
      ∀ j line, ls[j]? = some line → HeaderLineFits (k + j) line := by
  induction ls generalizing k req with
  | nil => simp [storeLines]
  | cons line ls ih =>
    have hline : 0 ∉ line := h0 line (by simp)
    have htail : ∀ l ∈ ls, 0 ∉ l := fun l hl => h0 l (by simp [hl])
    simp only [storeLines, bind_eq_ok]
    constructor
    · rintro ⟨r, req', hreq, hr⟩ j l hl
      cases j with
      | zero =>
        obtain rfl : line = l := by simpa using hl
        exact (parseHeaderLine_isOk_iff hline k req).mp ⟨req', hreq⟩
      | succ j =>
        have := (ih htail (k + 1) req').mp ⟨r, hr⟩ j l (by simpa using hl)
        rwa [Nat.add_assoc, Nat.add_comm 1 j] at this
    · intro hfits
      obtain ⟨req', hreq⟩ := (parseHeaderLine_isOk_iff hline k req).mpr (hfits 0 line rfl)
      obtain ⟨r, hr⟩ := (ih htail (k + 1) req').mpr fun j l hl => by
        have := hfits (j + 1) l (by simpa using hl)
        rwa [Nat.add_assoc, Nat.add_comm 1 j]
      exact ⟨r, req', hreq, hr⟩

theorem storeLines_parsed {requestLine : Bytes} {ls hs : List Bytes} {req r : HttpRequest}
    (hreq : ParsedHead requestLine hs req) (h : storeLines ls hs.length req = .ok r) :
    ParsedHead requestLine (hs ++ ls) r := by
  induction ls generalizing hs req with
  | nil =>
    simp only [storeLines, Except.ok.injEq] at h
    rwa [List.append_nil, ← h]
  | cons line ls ih =>
    simp only [storeLines, bind_eq_ok] at h
    obtain ⟨req', hreq', hr⟩ := h
    have hlen : (hs ++ [line]).length = hs.length + 1 := by simp
    have := ih (parseHeaderLine_parsed hreq hreq') (hlen ▸ hr)
    rwa [List.append_assoc, List.singleton_append] at this

theorem notMem_of_headLines {s line : Bytes} (h0 : 0 ∉ s) (h : line ∈ headLines s) : 0 ∉ line := by
  unfold headLines at h
  split at h
  · simp at h
  · exact fun hz => h0 (List.take_subset _ _ (subset_of_mem_lines h hz))

theorem headLines_of_end {s : Bytes} {e : Nat} (h : strstr s headEnd = some e) :
    headLines s = lines (s.take e) := by
  unfold headLines
  rw [h]

/-- The loop over all the lines of a head: the request line, then the headers. -/
def readHead : List Bytes → HttpRequest → Except Fault HttpRequest
  | [], req => .ok req
  | line :: ls, req => parseRequestLine line req >>= storeLines ls 0

theorem parseLines_head {newLine : Bytes} {left : Nat} (h : strstr newLine headEnd = some left)
    (req : HttpRequest) :
    parseLines newLine left 1 0 req = readHead (lines (newLine.take left)) req := by
  by_cases hleft : left = 0
  · subst hleft
    rw [parseLines_zero, List.take_zero, lines_of_none (by decide), if_pos rfl, readHead]
  · obtain ⟨n, hn, -, hlines, hnext⟩ := headCut hleft (.inr h)
    rw [parseLines_step hleft hn, if_pos rfl, hlines, readHead]
    congr 1
    funext req'
    exact parseLines_eq_storeLines (by decide) hnext

theorem parseHttpRequest_head {request : Bytes} {e : Nat}
    (h : strstr (cstr request) headEnd = some e) (req : HttpRequest) :
    parseHttpRequest request req = readHead (headLines (cstr request)) req >>= fun req =>
      .ok (parseBody ((cstr request).drop (e + 4)) req) := by
  unfold parseHttpRequest
  rw [headLines_of_end h]
  simp only [h, parseLines_head h]

def joinLines (ls : List Bytes) : Bytes := ls.flatMap (· ++ crlf)

theorem not_crlf_prefix_line {l : Bytes} (hl : IsLine l) (rest : Bytes) :
    ¬ [13, 10] <+: l ++ 13 :: 10 :: rest := by
  obtain ⟨hne, hcr⟩ := hl
  intro hp
  obtain ⟨b, t, rfl⟩ := List.exists_cons_of_ne_nil hne
  rw [List.cons_append] at hp
  obtain ⟨rfl, hnext⟩ := List.cons_prefix_cons.mp hp
  cases t with
  | nil => exact absurd (List.cons_prefix_cons.mp hnext).1 (by decide)
  | cons c t =>
    obtain ⟨rfl, -⟩ := List.cons_prefix_cons.mp hnext
    exact hcr (List.IsPrefix.isInfix ⟨t, rfl⟩)

/-- The CRLF of a line ends the head only if another one follows it. -/
theorem strstr_headEnd_crlf {tail : Bytes} {e : Nat} (hstart : ¬ [13, 10] <+: tail)
    (he : strstr tail headEnd = some e) : strstr (13 :: 10 :: tail) headEnd = some (e + 1 + 1) := by
  rw [strstr_cons_of_not, strstr_cons_of_not, he]
  · rfl
  · intro hp
    exact absurd (List.cons_prefix_cons.mp hp).1 (by decide)
  · intro hp
    exact hstart (List.cons_prefix_cons.mp (List.cons_prefix_cons.mp hp).2).2

theorem headEnd_singleton {l : Bytes} (hl : IsLine l) (body : Bytes) :
    strstr (joinLines [l] ++ crlf ++ body) headEnd = some l.length ∧
      lines ((joinLines [l] ++ crlf ++ body).take l.length) = [l] := by
  have htext : joinLines [l] ++ crlf ++ body = l ++ (headEnd ++ body) := by
    simp [joinLines, crlf, headEnd]
  have hhere : strstr (headEnd ++ body) headEnd = some 0 := strstr_eq_zero ⟨body, rfl⟩
  constructor
  · rw [htext, headEnd, List.cons_append, strstr_append_of_absent (by decide) hl.2]
    show Option.map _ (strstr (headEnd ++ body) headEnd) = _
    rw [hhere, Option.map_some, Nat.zero_add]
  · rw [htext, List.take_left, lines_singleton hl]

theorem headEnd_joinLines {ls : List Bytes} (hls : ∀ l ∈ ls, IsLine l) (hne : ls ≠ [])
    (body : Bytes) : ∃ e, strstr (joinLines ls ++ crlf ++ body) headEnd = some e ∧
      e + 4 = (joinLines ls ++ crlf).length ∧
      lines ((joinLines ls ++ crlf ++ body).take e) = ls := by
  induction ls with
  | nil => exact absurd rfl hne
  | cons l ls ih =>
    obtain ⟨hl, hls⟩ := List.forall_mem_cons.mp hls
    cases ls with
    | nil =>
      obtain ⟨hfound, hlines⟩ := headEnd_singleton hl body
      exact ⟨l.length, hfound, by simp [joinLines, crlf], hlines⟩
    | cons l' ls =>
      obtain ⟨e, he, hlen, hlines⟩ := ih hls (by simp)
      have hstart : ¬ [13, 10] <+: joinLines (l' :: ls) ++ crlf ++ body := by
        have hjoin : joinLines (l' :: ls) ++ crlf ++ body =
            l' ++ 13 :: 10 :: (joinLines ls ++ crlf ++ body) := by simp [joinLines, crlf]
        rw [hjoin]
        exact not_crlf_prefix_line (hls l' List.mem_cons_self) _
      have htext : joinLines (l :: l' :: ls) ++ crlf ++ body =
          l ++ 13 :: 10 :: (joinLines (l' :: ls) ++ crlf ++ body) := by simp [joinLines, crlf]
      refine ⟨e + 1 + 1 + l.length, ?_, ?_, ?_⟩
      · rw [htext, headEnd, strstr_append_of_absent (by decide) hl.2, ← headEnd,
          strstr_headEnd_crlf hstart he, Option.map_some]
      · have hcons : joinLines (l :: l' :: ls) = l ++ crlf ++ joinLines (l' :: ls) := rfl
        have hcrlf : crlf.length = 2 := rfl
        simp only [hcons, List.length_append, hcrlf] at hlen ⊢
        omega
      · rw [htext, Nat.add_comm _ l.length, List.take_length_add_append]
        rw [List.take_succ_cons, List.take_succ_cons, lines_cons hl, hlines]

theorem headLines_joinLines {ls : List Bytes} (hls : ∀ l ∈ ls, IsLine l) (hne : ls ≠ [])
    (body : Bytes) : headLines (joinLines ls ++ crlf ++ body) = ls := by
  obtain ⟨e, he, -, hlines⟩ := headEnd_joinLines hls hne body
  rw [headLines_of_end he, hlines]

/-- The loop over all the lines of a head, on a zeroed request. -/
def readLines : List Bytes → Except Fault HttpRequest
  | [] => .ok .zeroed
  | line :: ls => parseRequestLine line .zeroed >>= storeLines ls 0

theorem readHead_zeroed (ls : List Bytes) : readHead ls .zeroed = readLines ls := by
  cases ls <;> rfl

theorem parseHttpRequest_eq {request : Bytes} {e : Nat}
    (h : strstr (cstr request) headEnd = some e) :
    parseHttpRequest request .zeroed = readLines (headLines (cstr request)) >>= fun req =>
      .ok (parseBody ((cstr request).drop (e + 4)) req) := by
  rw [parseHttpRequest_head h, readHead_zeroed]

/-- Reading the lines of a head succeeds exactly when they fit. -/
theorem readLines_isOk_iff {ls : List Bytes} (h0 : ∀ line ∈ ls, 0 ∉ line) :
    (∃ req, readLines ls = .ok req) ↔ HeadFits ls := by
  cases ls with
  | nil => exact iff_of_true ⟨.zeroed, rfl⟩ ⟨by simp, by simp⟩
  | cons line ls =>
    have hline : 0 ∉ line := h0 line (by simp)
    have hls : ∀ l ∈ ls, 0 ∉ l := fun l hl => h0 l (by simp [hl])
    simp only [readLines, bind_eq_ok]
    constructor
    · rintro ⟨req, req', hreq', hreq⟩
      have hfits := (storeLines_isOk_iff hls 0 req').mp ⟨req, hreq⟩
      simp only [Nat.zero_add] at hfits
      refine ⟨fun l hl => ?_, hfits⟩
      obtain rfl : line = l := by simpa using hl
      exact (parseRequestLine_isOk_iff hline .zeroed).mp ⟨req', hreq'⟩
    · intro hfits
      obtain ⟨req', hreq'⟩ :=
        (parseRequestLine_isOk_iff hline .zeroed).mpr (hfits.requestLine line rfl)
      obtain ⟨req, hreq⟩ := (storeLines_isOk_iff hls 0 req').mpr fun k l hl => by
        rw [Nat.zero_add]
        exact hfits.headerLine k l hl
      exact ⟨req, req', hreq', hreq⟩

theorem headFits_of_toBool {ls : List Bytes} (h0 : ∀ line ∈ ls, 0 ∉ line)
    (h : (readLines ls).toBool = true) : HeadFits ls := by
  apply (readLines_isOk_iff h0).mp
  cases hread : readLines ls with
  | ok req => exact ⟨req, rfl⟩
  | error fault =>
    rw [hread] at h
    cases h

theorem readLines_parsed {ls : List Bytes} {req : HttpRequest} (h : readLines ls = .ok req) :
    ParsedHead (ls.headD []) ls.tail req := by
  cases ls with
  | nil =>
    simp only [readLines, Except.ok.injEq] at h
    rw [← h]
    have htoken : ∀ i, requestToken (words []) i = [] := fun i => by
      rw [words_of_blank rfl]
      rfl
    exact ⟨(htoken 0).symm, (htoken 1).symm, (htoken 2).symm, fun _ => rfl, rfl, rfl⟩
  | cons line ls =>
    simp only [readLines, bind_eq_ok] at h
    obtain ⟨req', hreq', hreq⟩ := h
    exact storeLines_parsed (parseRequestLine_parsed hreq') hreq

theorem headFits_of_noHead {request : Bytes} (h : strstr (cstr request) headEnd = none) :
    HeadFits (headLines (cstr request)) := by
  have hlines : headLines (cstr request) = [] := by simp [headLines, h]
  rw [hlines]
  exact ⟨by simp, by simp⟩

theorem headFits_of_parsed {request : Bytes} {result : Int × HttpRequest}
    (h : parseHttpRequest request .zeroed = .ok result) : HeadFits (headLines (cstr request)) := by
  cases he : strstr (cstr request) headEnd with
  | none => exact headFits_of_noHead he
  | some e =>
    have h0 : ∀ line ∈ headLines (cstr request), 0 ∉ line := fun line hl =>
      notMem_of_headLines (zero_notMem_cstr request) hl
    rw [parseHttpRequest_eq he] at h
    obtain ⟨req, hreq, -⟩ := bind_eq_ok.mp h
    exact (readLines_isOk_iff h0).mp ⟨req, hreq⟩

theorem exists_parsed {request : Bytes} (h : HeadFits (headLines (cstr request))) :
    ∃ result, parseHttpRequest request .zeroed = .ok result := by
  cases he : strstr (cstr request) headEnd with
  | none =>
    unfold parseHttpRequest
    simp only [he]
    exact ⟨_, rfl⟩
  | some e =>
    have h0 : ∀ line ∈ headLines (cstr request), 0 ∉ line := fun line hl =>
      notMem_of_headLines (zero_notMem_cstr request) hl
    obtain ⟨req, hreq⟩ := (readLines_isOk_iff h0).mpr h
    rw [parseHttpRequest_eq he, hreq]
    exact ⟨_, rfl⟩

/-- Parsing on a zeroed request stays inside the arrays of `HttpRequest` exactly when every
line of the head fits. -/
theorem parseHttpRequest_in_bounds_iff (request : Bytes) :
    (∃ result, parseHttpRequest request .zeroed = .ok result) ↔
      HeadFits (headLines (cstr request)) := by
  constructor
  · rintro ⟨result, h⟩
    exact headFits_of_parsed h
  · exact exists_parsed

/-- A version of 18 bytes: received whole, classified as HTTP, and beyond `char version[16]`. -/
theorem long_version_out_of_bounds :
    ¬ ∀ mode peer r, (recvRequest mode peer).1 = some r →
      (detectProtocol (cstr r.memory) (cstr r.memory).length).type = .http →
      ∃ result, parseHttpRequest r.memory .zeroed = .ok result := by
  intro h
  let text := ascii "GET / HTTP/1.10000000000\r\n\r\n"
  have hrecv : (recvRequest .blocking (.ofSegments [text])).1 = some ⟨text, 4096, by decide⟩ := by
    decide +kernel
  have hhttp : (detectProtocol (cstr (text ++ [0])) (cstr (text ++ [0])).length).type = .http := by
    decide +kernel
  have hfault : (parseHttpRequest (text ++ [0]) .zeroed).toBool = false := by decide +kernel
  obtain ⟨result, hresult⟩ := h _ _ _ hrecv hhttp
  have hok : (parseHttpRequest (text ++ [0]) .zeroed).toBool = true :=
    congrArg Except.toBool hresult
  rw [hfault] at hok
  cases hok

end MinhServer
