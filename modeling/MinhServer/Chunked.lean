import MinhServer.Framing
import MinhServer.Http.Head

namespace MinhServer
open CString

def isxdigit (c : Byte) : Bool := isdigit c || (97 ≤ c && c ≤ 102) || (65 ≤ c && c ≤ 70)

def xdigitValue (c : Byte) : Nat := if isdigit c then c.toNat - 48 else (tolower c).toNat - 87

def hexadecimal (ds : Bytes) : Nat := ds.foldl (fun n c => n * 16 + xdigitValue c) 0

structure SizeLine where
  digits : Bytes
  ne_nil : digits ≠ []
  isxdigit : ∀ c ∈ digits, isxdigit c = true

/-- A chunk with as many bytes of data as its size line says, and at least one. -/
structure Chunk where
  size : SizeLine
  data : Bytes
  length : hexadecimal size.digits = data.length
  ne_nil : data ≠ []

def Chunk.text (c : Chunk) : Bytes := c.size.digits ++ crlf ++ c.data ++ crlf

structure TrailerLine where
  line : Bytes
  colon : 58 ∈ line
  oneLine : ¬ crlf <:+: line

/-- A chunked body: the chunks, the size line of the empty chunk and the trailer. -/
structure ChunkedBody where
  chunks : List Chunk
  last : SizeLine
  empty : hexadecimal last.digits = 0
  trailer : List TrailerLine

/-- The size line of the empty chunk and the lines after it. -/
def ChunkedBody.tail (body : ChunkedBody) : Bytes :=
  joinLines (body.last.digits :: body.trailer.map TrailerLine.line)

def ChunkedBody.text (body : ChunkedBody) : Bytes :=
  body.chunks.flatMap Chunk.text ++ (body.tail ++ crlf)

/-- What is received begins with a complete chunked body. -/
def HasChunkedBody (received : Bytes) : Prop := ∃ body : ChunkedBody, body.text <+: received

/-- The marker lies in the data and its line end, or the size line and the data begin it. -/
def Chunk.ShowsMarker (c : Chunk) : Prop :=
  c.size.digits.getLast? = some 48 ∧ crlf <+: c.data ∨ endMarker <:+: c.data ++ crlf

theorem ne_of_isxdigit {c : Byte} (h : isxdigit c = true) : c ≠ 13 ∧ c ≠ 10 := by
  constructor <;> rintro rfl <;> exact absurd h (by decide)

theorem SizeLine.oneLine (size : SizeLine) : ¬ crlf <:+: size.digits := by
  intro h
  exact (ne_of_isxdigit (size.isxdigit 13 (h.subset List.mem_cons_self))).1 rfl

theorem TrailerLine.ne_nil (t : TrailerLine) : t.line ≠ [] := List.ne_nil_of_mem t.colon

section Marker
variable {line rest : Bytes}

theorem marker_blank_iff : endMarker <:+: crlf ++ rest ↔ endMarker <:+: rest := by
  simp only [crlf, List.cons_append, List.nil_append, List.infix_cons_iff]
  simp [endMarker]

theorem marker_prefix_iff {a : Byte} (h : ¬ crlf <:+: a :: line) :
    endMarker <+: a :: (line ++ crlf ++ rest) ↔ a = 48 ∧ line = [] ∧ crlf <+: rest := by
  have hmarker : endMarker = 48 :: (crlf ++ crlf) := rfl
  rw [hmarker, List.cons_prefix_cons, eq_comm]
  refine and_congr_right fun _ => ?_
  cases line with
  | nil => simp [List.prefix_append_right_inj]
  | cons b line =>
    -- the CRLF would have to lie in the line, or to begin with its last byte
    refine iff_of_false ?_ (by simp)
    rintro ⟨t, ht⟩
    cases line with
    | nil => simp [crlf] at ht
    | cons c line =>
      simp only [crlf, List.cons_append, List.nil_append, List.cons.injEq] at ht
      obtain ⟨rfl, rfl, -⟩ := ht
      exact h ⟨[a], line, rfl⟩

theorem marker_line_iff (h : ¬ crlf <:+: line) :
    endMarker <:+: line ++ crlf ++ rest ↔
      line.getLast? = some 48 ∧ crlf <+: rest ∨ endMarker <:+: rest := by
  induction line with
  | nil => simp [marker_blank_iff]
  | cons a line ih =>
    have hline : ¬ crlf <:+: line := fun hc => h (hc.trans (List.suffix_cons a line).isInfix)
    rw [List.cons_append, List.cons_append, List.infix_cons_iff, marker_prefix_iff h, ih hline]
    cases line with
    | nil => simp
    | cons b line => simp

theorem not_blank (hne : line ≠ []) (h : ¬ crlf <:+: line) : ¬ crlf <+: line ++ crlf ++ rest := by
  rintro ⟨t, ht⟩
  cases line with
  | nil => exact hne rfl
  | cons a line =>
    cases line with
    | nil => simp [crlf] at ht
    | cons b line =>
      simp only [crlf, List.cons_append, List.nil_append, List.cons.injEq] at ht
      obtain ⟨rfl, rfl, -⟩ := ht
      exact h (List.prefix_append crlf line).isInfix

theorem joinLines_cons_blank (l : Bytes) (ls : List Bytes) (rest : Bytes) :
    joinLines (l :: ls) ++ crlf ++ rest = l ++ crlf ++ (joinLines ls ++ crlf ++ rest) := by
  simp [joinLines, List.append_assoc]

theorem marker_lines_iff {ls : List Bytes} (hls : ∀ l ∈ ls, l ≠ [] ∧ ¬ crlf <:+: l) :
    endMarker <:+: joinLines ls ++ crlf ++ rest ↔
      (∃ l ∈ ls.getLast?, l.getLast? = some 48) ∨ endMarker <:+: rest := by
  induction ls with
  | nil => simp [joinLines, marker_blank_iff]
  | cons l ls ih =>
    have hl := hls l List.mem_cons_self
    have hls' : ∀ l ∈ ls, l ≠ [] ∧ ¬ crlf <:+: l := fun l' h => hls l' (List.mem_cons_of_mem l h)
    rw [joinLines_cons_blank, marker_line_iff hl.2, ih hls']
    cases ls with
    | nil => simp [joinLines]
    | cons l' ls =>
      have hl' := hls' l' List.mem_cons_self
      have hnot : ¬ crlf <+: joinLines (l' :: ls) ++ crlf ++ rest := by
        rw [joinLines_cons_blank]
        exact not_blank hl'.1 hl'.2
      simp only [hnot, and_false, false_or, List.getLast?_cons_cons]

theorem marker_chunk_iff (c : Chunk) (hrest : ∀ b ∈ rest.head?, isxdigit b = true) :
    endMarker <:+: c.text ++ rest ↔ c.ShowsMarker ∨ endMarker <:+: rest := by
  have hhead : ∀ b ∈ rest.head?, b ∉ crlf ++ crlf := by
    intro b hb hmem
    have hne := ne_of_isxdigit (hrest b hb)
    simp [crlf, hne.1, hne.2] at hmem
  have hdata : crlf <+: c.data ++ crlf ++ rest ↔ crlf <+: c.data := by
    cases hc : c.data with
    | nil => exact absurd hc c.ne_nil
    | cons a data =>
      -- a single byte CR of data is followed by the CR of the line end, not by an LF
      cases data with
      | nil => simp [crlf]
      | cons b data => simp [crlf]
  have htext : c.text ++ rest = c.size.digits ++ crlf ++ (c.data ++ crlf ++ rest) := by
    simp [Chunk.text, List.append_assoc]
  rw [htext, marker_line_iff c.size.oneLine, hdata, Chunk.ShowsMarker, or_assoc]
  exact or_congr_right (infix_append_of_head hhead)

theorem head_chunks (cs : List Chunk) (hrest : ∀ b ∈ rest.head?, isxdigit b = true) :
    ∀ b ∈ (cs.flatMap Chunk.text ++ rest).head?, isxdigit b = true := by
  cases cs with
  | nil => exact hrest
  | cons c cs =>
    intro b hb
    obtain ⟨d, ds, hds⟩ := List.exists_cons_of_ne_nil c.size.ne_nil
    simp only [List.flatMap_cons, Chunk.text, hds, List.cons_append, List.head?_cons,
      Option.mem_some_iff] at hb
    exact hb ▸ c.size.isxdigit d (by rw [hds]; exact List.mem_cons_self)

theorem marker_chunks_iff (cs : List Chunk) (hrest : ∀ b ∈ rest.head?, isxdigit b = true) :
    endMarker <:+: cs.flatMap Chunk.text ++ rest ↔
      (∃ c ∈ cs, c.ShowsMarker) ∨ endMarker <:+: rest := by
  induction cs with
  | nil => simp
  | cons c cs ih =>
    rw [List.flatMap_cons, List.append_assoc, marker_chunk_iff c (head_chunks cs hrest), ih]
    simp only [List.exists_mem_cons_iff, or_assoc]

theorem eq_zero_digit {c : Byte} (h : isxdigit c = true) (hvalue : xdigitValue c = 0) : c = 48 := by
  cases c with
  | ofBitVec v =>
    revert v
    decide

theorem last_ends_in_zero {size : SizeLine} (h : hexadecimal size.digits = 0) :
    size.digits.getLast? = some 48 := by
  obtain ⟨ds, c, hds⟩ := (List.eq_nil_or_concat size.digits).resolve_left size.ne_nil
  rw [List.concat_eq_append] at hds
  have hdigit : isxdigit c = true := size.isxdigit c (by simp [hds])
  have hvalue : xdigitValue c = 0 := by
    rw [hds, hexadecimal, List.foldl_append, List.foldl_cons, List.foldl_nil] at h
    omega
  rw [hds, List.getLast?_append, List.getLast?_singleton, eq_zero_digit hdigit hvalue]
  rfl

/-- Where the marker lies when a body is complete: at its end, if there is no trailer or the
trailer ends in `0`; in a chunk; or in what follows the body. -/
theorem marker_body_iff (body : ChunkedBody) :
    endMarker <:+: body.text ++ rest ↔
      (∀ t ∈ body.trailer.getLast?, t.line.getLast? = some 48) ∨
        (∃ c ∈ body.chunks, c.ShowsMarker) ∨ endMarker <:+: rest := by
  have htext : body.text ++ rest =
      body.chunks.flatMap Chunk.text ++ (body.tail ++ crlf ++ rest) := by
    simp [ChunkedBody.text, List.append_assoc]
  have hhead : ∀ b ∈ (body.tail ++ crlf ++ rest).head?, isxdigit b = true := by
    intro b hb
    obtain ⟨d, ds, hds⟩ := List.exists_cons_of_ne_nil body.last.ne_nil
    simp only [ChunkedBody.tail, joinLines_cons_blank, hds, List.cons_append, List.head?_cons,
      Option.mem_some_iff] at hb
    exact hb ▸ body.last.isxdigit d (by rw [hds]; exact List.mem_cons_self)
  have hlines : ∀ l ∈ body.last.digits :: body.trailer.map TrailerLine.line,
      l ≠ [] ∧ ¬ crlf <:+: l := by
    intro l hl
    rcases List.mem_cons.mp hl with rfl | hl
    · exact ⟨body.last.ne_nil, body.last.oneLine⟩
    · obtain ⟨t, -, rfl⟩ := List.mem_map.mp hl
      exact ⟨t.ne_nil, t.oneLine⟩
  rw [htext, marker_chunks_iff _ hhead, ChunkedBody.tail, marker_lines_iff hlines, or_left_comm]
  refine or_congr_left ?_
  -- without a trailer the last line is the size line, which ends in `0`
  cases body.trailer with
  | nil => simp [last_ends_in_zero body.empty]
  | cons t ts =>
    obtain ⟨x, hx⟩ : ∃ x, (t :: ts).getLast? = some x :=
      ⟨_, List.getLast?_eq_some_getLast (List.cons_ne_nil t ts)⟩
    have hline : (t.line :: ts.map TrailerLine.line).getLast? = some x.line := by
      rw [← List.map_cons, List.getLast?_map, hx]
      rfl
    rw [List.map_cons, List.getLast?_cons_cons, hline]
    simp [hx]

end Marker

/-- The search finds a complete body when what is received begins with one and the marker lies
at its end, in one of its chunks, or in what follows it. -/
def EndsFound (received : Bytes) : Prop :=
  ∃ (body : ChunkedBody) (rest : Bytes), received = body.text ++ rest ∧
    ((∀ t ∈ body.trailer.getLast?, t.line.getLast? = some 48) ∨
      (∃ c ∈ body.chunks, c.ShowsMarker) ∨ endMarker <:+: rest)

/-- The answer is right exactly when a complete body has its marker, or when without a complete
body no marker was received. -/
theorem chunked_complete_iff (received : Bytes) :
    (isChunkedBodyComplete received = true ↔ HasChunkedBody received) ↔
      EndsFound received ∨ ¬ HasChunkedBody received ∧ ¬ endMarker <:+: received := by
  rw [isChunkedBodyComplete_iff]
  have hfound : EndsFound received ↔ HasChunkedBody received ∧ endMarker <:+: received := by
    constructor
    · rintro ⟨body, rest, rfl, hmarker⟩
      exact ⟨⟨body, List.prefix_append _ _⟩, (marker_body_iff body).mpr hmarker⟩
    · rintro ⟨⟨body, rest, rfl⟩, hmarker⟩
      exact ⟨body, rest, rfl, (marker_body_iff body).mp hmarker⟩
  rw [hfound]
  tauto

/-- A body with a trailer as in the documentation. -/
theorem trailer_not_complete : ¬ ∀ received,
    isChunkedBodyComplete received = true ↔ HasChunkedBody received := by
  intro h
  let last : SizeLine := ⟨ascii "0", by decide, by decide +kernel⟩
  let expires : TrailerLine := ⟨ascii "Expires: 1 Jan", by decide, by decide +kernel⟩
  have hbody : HasChunkedBody (ascii "0\r\nExpires: 1 Jan\r\n\r\n") :=
    ⟨⟨[], last, by decide +kernel, [expires]⟩, by decide +kernel⟩
  exact absurd ((h _).mpr hbody) (by decide +kernel)

end MinhServer
