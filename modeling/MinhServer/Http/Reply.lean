import MinhServer.Delivery
import MinhServer.Library.Decimal
import MinhServer.Library.Stream

namespace MinhServer
open CString Stream

structure Reply where
  statusCode : Int
  statusMessage : Bytes
  contentType : Bytes
  keepAlive : Bool
  body : Bytes
  deriving DecidableEq, Repr

def lineValue (label : Bytes) (ls : List Bytes) : Option Bytes :=
  (ls.find? fun l => label.isPrefixOf l).map (·.drop label.length)

def readReply (s : Bytes) : Option (Reply × Bytes) := do
  let headerEnd ← strstr s headEnd
  let ls := lines (s.take headerEnd)
  let status ← lineValue (ascii "HTTP/1.1 ") ls
  let contentType ← lineValue (ascii "Content-Type: ") ls
  let length ← lineValue (ascii "Content-Length: ") ls
  let connection ← lineValue (ascii "Connection: ") ls
  let rest := s.drop (headerEnd + 4)
  let n := (strtol length).1
  if 0 ≤ n ∧ n ≤ rest.length then
    some ({ statusCode := (strtol status).1
            statusMessage := (strtol status).2.drop 1
            contentType := contentType
            keepAlive := connection == ascii "keep-alive"
            body := rest.take n.toNat }, rest.drop n.toNat)
  else none

namespace Reply

def lines (reply : Reply) : List Bytes := [
  ascii "HTTP/1.1 " ++ printInt reply.statusCode ++ ascii " " ++ reply.statusMessage,
  ascii "Server: minhServer", ascii "Content-Type: " ++ reply.contentType,
  ascii "Content-Length: " ++ printInt reply.body.length,
  ascii "Connection: " ++ if reply.keepAlive then ascii "keep-alive" else ascii "close"]

def header (reply : Reply) : Bytes := joinLines reply.lines ++ crlf

def text (reply : Reply) : Bytes := reply.header ++ reply.body

/-- The numbers are `long`s and no line is broken. -/
structure Printable (reply : Reply) : Prop where
  code : -2 ^ 63 ≤ reply.statusCode ∧ reply.statusCode < 2 ^ 63
  message : 13 ∉ reply.statusMessage
  type : 13 ∉ reply.contentType
  body : reply.body.length < 2 ^ 63

end Reply

section Reading
variable {reply : Reply} {n : Int} {rest : Bytes}

theorem strtol_printInt (hlow : -2 ^ 63 ≤ n) (hhigh : n < 2 ^ 63) (hrest : EndsNumber rest) :
    strtol (printInt n ++ rest) = (n, rest) := by
  cases n with
  | ofNat k => exact strtol_repr (by simp only [Int.ofNat_eq_natCast] at hhigh; omega) hrest
  | negSucc k =>
    have htext : printInt (Int.negSucc k) = 45 :: ascii (k + 1).repr := by
      have hneg : toString (Int.negSucc k) = "-" ++ (k + 1).repr := rfl
      have hminus : ascii "-" = [45] := by decide
      rw [printInt, hneg, ascii, String.toList_append, List.map_append]
      change ascii "-" ++ ascii (k + 1).repr = _
      rw [hminus]
      rfl
    have hk : k + 1 ≤ 2 ^ 63 := by omega
    rw [htext, List.cons_append, strtol_minus_repr hk hrest]
    rfl

theorem endsNumber_nil : EndsNumber [] := by simp [EndsNumber]

theorem endsNumber_blank (s : Bytes) : EndsNumber (ascii " " ++ s) := by
  intro b hb
  cases hb
  rfl

theorem Reply.isLine_lines (h : reply.Printable) : ∀ l ∈ reply.lines, IsLine l := by
  intro l hl
  simp only [Reply.lines, List.mem_cons, List.not_mem_nil, or_false] at hl
  rcases hl with rfl | rfl | rfl | rfl | rfl
  · exact isLine_status reply.statusCode h.message
  · exact .of_notMem (by decide) (by decide)
  · exact isLine_labelled (by decide) (by decide) h.type
  · exact isLine_contentLength _
  · apply isLine_labelled (by decide) (by decide)
    cases reply.keepAlive <;> decide

theorem lineValue_here (label value : Bytes) (ls : List Bytes) :
    lineValue label ((label ++ value) :: ls) = some value := by
  have hhere : label.isPrefixOf (label ++ value) = true :=
    List.isPrefixOf_iff_prefix.mpr (List.prefix_append _ _)
  rw [lineValue, List.find?_cons_of_pos hhere, Option.map_some, List.drop_left]

theorem lineValue_later {label l : Bytes} {ls : List Bytes} (h : label.isPrefixOf l = false) :
    lineValue label (l :: ls) = lineValue label ls := by
  rw [lineValue, List.find?_cons_of_neg (Bool.eq_false_iff.mp h), lineValue]

theorem Reply.lineValue_status (reply : Reply) : lineValue (ascii "HTTP/1.1 ") reply.lines =
    some (printInt reply.statusCode ++ (ascii " " ++ reply.statusMessage)) := by
  rw [Reply.lines, List.append_assoc, List.append_assoc, lineValue_here]

theorem Reply.lineValue_type (reply : Reply) :
    lineValue (ascii "Content-Type: ") reply.lines = some reply.contentType := by
  rw [Reply.lines, lineValue_later rfl, lineValue_later rfl, lineValue_here]

theorem Reply.lineValue_length (reply : Reply) :
    lineValue (ascii "Content-Length: ") reply.lines = some (printInt reply.body.length) := by
  rw [Reply.lines, lineValue_later rfl, lineValue_later rfl, lineValue_later rfl, lineValue_here]

theorem Reply.lineValue_connection (reply : Reply) : lineValue (ascii "Connection: ") reply.lines =
    some (if reply.keepAlive then ascii "keep-alive" else ascii "close") := by
  rw [Reply.lines, lineValue_later rfl, lineValue_later rfl, lineValue_later rfl,
    lineValue_later rfl, lineValue_here]

theorem Reply.spells (h : reply.Printable) : Spells readReply reply.text reply where
  nonempty := by simp [Reply.text, Reply.header, crlf]
  reads rest := by
    obtain ⟨e, he, hlen, hlines⟩ :=
      headEnd_joinLines (Reply.isLine_lines h) (List.cons_ne_nil _ _) (reply.body ++ rest)
    have htext : reply.text ++ rest = joinLines reply.lines ++ crlf ++ (reply.body ++ rest) := by
      rw [Reply.text, Reply.header, List.append_assoc, List.append_assoc]
    have hdrop : (reply.text ++ rest).drop (e + 4) = reply.body ++ rest := by
      rw [htext, hlen, List.drop_left]
    have hstatus := strtol_printInt h.code.1 h.code.2 (endsNumber_blank reply.statusMessage)
    have hlong : (reply.body.length : Int) < 2 ^ 63 := by exact_mod_cast h.body
    have hlength : strtol (printInt reply.body.length) = ((reply.body.length : Int), []) := by
      have hread := strtol_printInt (by omega) hlong endsNumber_nil
      rwa [List.append_nil] at hread
    have hfits : (reply.body.length : Int) ≤ (reply.body ++ rest).length := by
      rw [List.length_append]
      omega
    have hkeep : ((if reply.keepAlive then ascii "keep-alive" else ascii "close") ==
        ascii "keep-alive") = reply.keepAlive := by
      cases reply.keepAlive <;> decide
    rw [← htext] at he hlines
    simp only [readReply, he, hlines, hdrop, Reply.lineValue_status, Reply.lineValue_type,
      Reply.lineValue_length, Reply.lineValue_connection, hstatus, hlength, hkeep, hfits,
      Option.bind_eq_bind, Option.bind_some, Int.natCast_nonneg, and_self, if_true,
      Int.toNat_natCast, List.take_left, List.drop_left]
    rfl

end Reading
end MinhServer
