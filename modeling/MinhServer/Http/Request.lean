import Mathlib.Data.List.Basic
import Mathlib.Logic.Function.Basic
import Mathlib.Tactic.Common
import MinhServer.Socket

/-!
# Parsing a request

`parseHttpRequest` cuts the head into lines and scans them into the fixed arrays
of `HttpRequest`. A step the C program leaves undefined is a `Fault`: a token or a
slot index beyond its array, or the use of a null pointer.
-/

namespace MinhServer
open CString

inductive Fault where
  | overflow
  | badPointer
  deriving DecidableEq, Repr

/-- A computation succeeds when its first part and the rest do. -/
theorem bind_eq_ok {α β : Type} {x : Except Fault α} {f : α → Except Fault β} {r : β} :
    (x >>= f) = .ok r ↔ ∃ a, x = .ok a ∧ f a = .ok r := by
  cases x with
  | error e => simp [Bind.bind, Except.bind]
  | ok a => simp [Bind.bind, Except.bind]

theorem map_eq_ok {α β : Type} {x : Except Fault α} {f : α → β} {b : β} :
    x.map f = .ok b ↔ ∃ a, x = .ok a ∧ f a = b := by
  cases x with
  | error e => simp [Except.map]
  | ok a => simp [Except.map]

theorem toOption_eq_some {α : Type} {x : Except Fault α} {a : α} (h : x.toOption = some a) :
    x = .ok a := by
  cases x with
  | error fault => cases h
  | ok b => exact congrArg Except.ok (Option.some.inj h)

/-- A `char[n]`: a C string that leaves room for its terminator. -/
structure CField (n : Nat) where
  bytes : Bytes
  noNul : 0 ∉ bytes
  fits : bytes.length < n
  deriving DecidableEq

namespace CField
variable {n : Nat}

theorem ext_bytes {a b : CField n} (h : a.bytes = b.bytes) : a = b := by
  cases a
  cases b
  cases h
  rfl

def zeroed (n : Nat) (h : 0 < n) : CField n := ⟨[], by simp, by simpa using h⟩

/-- What `sscanf` leaves in a `char[n]` for a token. -/
def scanned (tok : Bytes) : Except Fault (CField n) :=
  if h : 0 ∉ tok ∧ tok.length < n then .ok ⟨tok, h.1, h.2⟩ else .error .overflow

/-- `memcpy(dst, tok, strlen(tok))` over what the field held. -/
def overwrite (old tok : CField n) : CField n where
  bytes := tok.bytes ++ old.bytes.drop tok.bytes.length
  noNul := by
    have hold : 0 ∉ old.bytes.drop tok.bytes.length := fun h => old.noNul (List.mem_of_mem_drop h)
    simp [tok.noNul, hold]
  fits := by
    have := tok.fits
    have := old.fits
    simp only [List.length_append, List.length_drop]
    omega

@[simp] theorem bytes_zeroed (h : 0 < n) : (zeroed n h).bytes = [] := rfl

@[simp] theorem zeroed_overwrite (h : 0 < n) (tok : CField n) :
    (zeroed n h).overwrite tok = tok := by
  cases tok
  simp [overwrite]

theorem scanned_eq_ok_iff {tok : Bytes} {f : CField n} : scanned tok = .ok f ↔ f.bytes = tok := by
  unfold scanned
  constructor
  · intro h
    split at h
    · simp only [Except.ok.injEq] at h
      rw [← h]
    · cases h
  · intro h
    rw [← h, dif_pos ⟨f.noNul, f.fits⟩]

theorem exists_bytes_iff {tok : Bytes} :
    (∃ f : CField n, f.bytes = tok) ↔ 0 ∉ tok ∧ tok.length < n := by
  constructor
  · rintro ⟨f, rfl⟩
    exact ⟨f.noNul, f.fits⟩
  · exact fun h => ⟨⟨tok, h.1, h.2⟩, rfl⟩

end CField

/-- One header slot: `char key[256]` and `char value[256]`. -/
structure Headers where
  key : CField 256
  value : CField 256
  deriving DecidableEq

structure HttpRequest where
  method : CField 16
  path : CField 256
  version : CField 16
  h : Fin 20 → Headers
  body : Option Bytes
  bodyLength : Nat

def Headers.zeroed : Headers where
  key := .zeroed 256 (by decide)
  value := .zeroed 256 (by decide)

/-- `HttpRequest request = {};` -/
def HttpRequest.zeroed : HttpRequest where
  method := .zeroed 16 (by decide)
  path := .zeroed 256 (by decide)
  version := .zeroed 16 (by decide)
  h := fun _ => .zeroed
  body := none
  bodyLength := 0

/-- `"%s %s %s"`. -/
def requestLineScan : List Directive := [.str none, .space, .str none, .space, .str none]

/-- `"%[^:]: %s"`. -/
def headerLineScan : List Directive := [.notIn 58, .lit 58, .space, .str none]

/-- The first line: the tokens go through local arrays, and reach the request only if
there are three of them. -/
def parseRequestLine (line : Bytes) (req : HttpRequest) : Except Fault HttpRequest :=
  match sscanf requestLineScan line with
  | [] => .ok req
  | [method] => do
    let _ ← (CField.scanned method : Except Fault (CField 16))
    .ok req
  | [method, path] => do
    let _ ← (CField.scanned method : Except Fault (CField 16))
    let _ ← (CField.scanned path : Except Fault (CField 256))
    .ok req
  | method :: path :: version :: _ => do
    let method ← CField.scanned method
    let path ← CField.scanned path
    let version ← CField.scanned version
    .ok { req with
      method := req.method.overwrite method
      path := req.path.overwrite path
      version := req.version.overwrite version }

/-- The request after `memcpy` into the key and the value of slot `k`. -/
def HttpRequest.withHeader (req : HttpRequest) (k : Fin 20) (key value : CField 256) :
    HttpRequest :=
  let old := req.h k
  let slot : Headers := { key := old.key.overwrite key, value := old.value.overwrite value }
  { req with h := Function.update req.h k slot }

/-- Writing `(req->h)[k]`. -/
def HttpRequest.setHeader (req : HttpRequest) (k : Nat) (key value : CField 256) :
    Except Fault HttpRequest :=
  if h : k < 20 then .ok (req.withHeader ⟨k, h⟩ key value) else .error .overflow

/-- A header line, for slot `k`. -/
def parseHeaderLine (line : Bytes) (k : Nat) (req : HttpRequest) : Except Fault HttpRequest :=
  match sscanf headerLineScan line with
  | [] => .ok req
  | [key] => do
    let _ ← (CField.scanned key : Except Fault (CField 256))
    .ok req
  | key :: value :: _ => do
    let key ← CField.scanned key
    let value ← CField.scanned value
    req.setHeader k key value

/-- The loop over the lines: `newLine` is the string at the pointer and `left` the distance
to the end of the head; `i` counts lines and `k` header slots. -/
def parseLines (newLine : Bytes) (left i k : Nat) (req : HttpRequest) :
    Except Fault HttpRequest :=
  if left = 0 then .ok req
  else
    match _h : strstr newLine crlf with
    | none => .error .badPointer
    | some lineLen =>
      let line := newLine.take lineLen
      if i = 1 then do
        let req ← parseRequestLine line req
        parseLines (newLine.drop (lineLen + 2)) (left - (lineLen + 2)) (i + 1) k req
      else do
        let req ← parseHeaderLine line k req
        parseLines (newLine.drop (lineLen + 2)) (left - (lineLen + 2)) (i + 1) (k + 1) req
termination_by newLine.length
decreasing_by
  all_goals
    have := strstr_end_le (by decide) _h
    simp only [crlf, List.length_cons, List.length_nil, List.length_drop] at *
    omega

/-- The first slot whose name begins with `Content-Length`. -/
def HttpRequest.contentLengthSlot (req : HttpRequest) : Option Headers :=
  (List.ofFn req.h).find? fun h => eqNoCase h.key.bytes (ascii "Content-Length") 14

/-- `strtol` of a slot's value stored in an `unsigned long`, or `none` when it does not
consume the whole value. -/
def Headers.bodyLength (h : Headers) : Option Nat :=
  let (v, endptr) := strtol h.value.bytes
  if endptr = [] then some (v % 2 ^ 64).toNat else none

/-- The body section; the first component is the return value. -/
def parseBody (body : Bytes) (req : HttpRequest) : Int × HttpRequest :=
  if body = [] then (0, req)
  else
    match req.contentLengthSlot with
    | none => (0, req)
    | some h =>
      match h.bodyLength with
      | none => (-1, req)
      | some bodyLength =>
        if bodyLength ≠ body.length then (-1, req)
        else (0, { req with bodyLength := bodyLength, body := some body })

/-- `parseHttpRequest` on the C string at `request`. -/
def parseHttpRequest (request : Bytes) (req : HttpRequest) : Except Fault (Int × HttpRequest) :=
  let newRequest := cstr request
  match strstr newRequest headEnd with
  | none => .ok (-1, req)
  | some headerEndPos => do
    let req ← parseLines newRequest headerEndPos 1 0 req
    .ok (parseBody (newRequest.drop (headerEndPos + 4)) req)

end MinhServer
