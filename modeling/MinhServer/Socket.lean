import Mathlib.Tactic.Common
import MinhServer.Library.CString
import MinhServer.Library.Wire

/-!
# Receiving one request

`recvRequest` and its helpers: one request is read into a buffer
that starts at 4096 bytes and doubles, and after every arrival the loop decides
from the bytes received so far whether the request is complete. Allocations
succeed.
-/

namespace MinhServer
open CString Wire

def crlf : Bytes := [13, 10]

/-- CRLFCRLF, the end of a request head. -/
def headEnd : Bytes := [13, 10, 13, 10]

/-- Offset just after the first CRLFCRLF; `none` is the source's -1. -/
def findHttpHeaderEnd : Bytes → Option Nat
  | 13 :: 10 :: 13 :: 10 :: _ => some 4
  | _ :: data => (findHttpHeaderEnd data).map (· + 1)
  | [] => none

/-- The declared length as the receiving side reads it: the digits after the first text
`Content-Length:` of the headers, accumulated in an `int`, and -1 without that text. -/
def getContentLength (headers : Bytes) (headersLen : Nat) : Int :=
  match strstr (cstr headers) (ascii "Content-Length:") with
  | none => -1
  | some i =>
    if headersLen ≤ i then -1
    else
      let clPtr := ((headers.take headersLen).drop (i + 15)).dropWhile isspace
      decimalInt32 (clPtr.takeWhile isdigit)

def isChunkedTransfer (headers : Bytes) (headersLen : Nat) : Bool :=
  match strstr (cstr headers) (ascii "Transfer-Encoding:") with
  | none => false
  | some i =>
    if headersLen ≤ i then false
    else
      let tePtr := ((headers.take headersLen).drop (i + 18)).dropWhile isspace
      if tePtr.length < 7 then false else eqNoCase tePtr (ascii "chunked") 7

/-- `0 CRLF CRLF`. -/
def endMarker : Bytes := [48, 13, 10, 13, 10]

/-- The backward scan for the end marker from offset `i` down to 0. -/
def scanEndMarker (body : Bytes) : Nat → Bool
  | 0 => decide (endMarker <+: body)
  | i + 1 => if endMarker <+: body.drop (i + 1) then true else scanEndMarker body i

def isChunkedBodyComplete (body : Bytes) : Bool :=
  if body.length < 5 then false else scanEndMarker body (body.length - 5)

/-- The text before the first space of the headers, if it fits `char method[16]`. -/
def requestMethod (headers : Bytes) : Bytes :=
  match strchr (cstr headers) 32 with
  | some n => if n < 15 then headers.take n else []
  | none => []

/-- The methods whose requests end with their head. -/
def isBodyless (method : Bytes) : Bool :=
  sameNoCase method (ascii "GET") || sameNoCase method (ascii "HEAD") ||
    sameNoCase method (ascii "DELETE") || sameNoCase method (ascii "OPTIONS")

/-- The limit on a request, `10 * 1024 * 1024`. -/
def maxRequest : Nat := 10 * 1024 * 1024

/-- The locals of `recvRequest`; `data` is `req[0 .. total_len)`. -/
structure RecvState where
  data : Bytes := []
  bufferSize : Nat := 4096
  headerEndPos : Option Nat := none
  contentLength : Int := -1
  isChunked : Bool := false
  deriving DecidableEq, Repr

/-- The test of a received body once the head is complete. -/
def bodyComplete (contentLength : Int) (isChunked : Bool) (headerEndPos : Nat)
    (data : Bytes) : Bool :=
  if 0 < contentLength then decide (contentLength ≤ (data.length : Int) - headerEndPos)
  else if isChunked then isChunkedBodyComplete (data.drop headerEndPos)
  else decide (headerEndPos < data.length)

namespace RecvState

/-- Doubling the buffer when no space remains. -/
def grow (s : RecvState) : RecvState :=
  if s.bufferSize - s.data.length = 0 then { s with bufferSize := s.bufferSize * 2 } else s

def remaining (s : RecvState) : Nat := s.bufferSize - s.data.length

/-- Looking for the end of the head; `none` when the method ends the request there. -/
def findHeader (s : RecvState) : Option RecvState :=
  match s.headerEndPos with
  | some _ => some s
  | none =>
    match findHttpHeaderEnd s.data with
    | none => some s
    | some pos =>
      let headers := s.data.take pos
      if isBodyless (requestMethod headers) then none
      else some { s with
        headerEndPos := some pos
        contentLength := getContentLength headers pos
        isChunked := isChunkedTransfer headers pos }

def isComplete (s : RecvState) : Bool :=
  match s.headerEndPos with
  | none => false
  | some pos => bodyComplete s.contentLength s.isChunked pos s.data

end RecvState

/-- The outcomes of one arrival. -/
inductive Progress where
  | complete (s : RecvState)
  | tooLarge
  | more (s : RecvState)

def RecvState.onData (s : RecvState) (bytes : Bytes) : Progress :=
  let s := { s with data := s.data ++ bytes }
  match s.findHeader with
  | none => .complete s
  | some s =>
    if s.isComplete then .complete s
    else if maxRequest < s.data.length then .tooLarge
    else .more s

/-- The buffer a caller gets: the received bytes, with room for the NUL after them in an
allocation of `size` bytes. -/
structure RecvBuffer where
  bytes : Bytes
  size : Nat
  terminated : bytes.length < size
  deriving DecidableEq

/-- What the returned pointer points at: the bytes received and the NUL written after them. -/
def RecvBuffer.memory (r : RecvBuffer) : Bytes := r.bytes ++ [0]

theorem cstr_memory (r : RecvBuffer) : cstr r.memory = cstr r.bytes := cstr_terminated r.bytes []

/-- Terminating the buffer, with one more byte when it is exactly full. An empty buffer
was zeroed when it was allocated. -/
def RecvState.finish (s : RecvState) : RecvBuffer :=
  if h : s.data.length < s.bufferSize then ⟨s.data, s.bufferSize, h⟩
  else ⟨s.data, s.data.length + 1, Nat.lt_succ_self _⟩

/-- The loop of `recvRequest`; `none` is a NULL return. -/
def recvLoop (mode : Mode) (s : RecvState) (peer : Peer Byte) :
    Option RecvBuffer × Peer Byte :=
  let s := s.grow
  match _h : peer.recv mode s.remaining with
  | (.data bytes, peer') =>
    match s.onData bytes with
    | .complete s' => (some s'.finish, peer')
    | .tooLarge => (none, peer')
    | .more s' => recvLoop mode s' peer'
  | (.eof, peer') => (some s.finish, peer')
  | (.again, peer') => (none, peer')
  | (.error, peer') => (none, peer')
termination_by peer.size
decreasing_by exact Peer.recv_size_lt _h

/-- `recvRequest` on an open connection: the buffer and what the peer still sends. -/
def recvRequest (mode : Mode) (peer : Peer Byte) : Option RecvBuffer × Peer Byte :=
  recvLoop mode {} peer

end MinhServer
