import Mathlib.Tactic.Common
import MinhServer.Library.CString

/-!
# Protocol detection

`detectProtocol` classifies what was received: the binary protocols first, then
text, which is HTTP unless a header asks for WebSocket. `data` is the memory from
the pointer on and `len` the length the caller passes.
-/

namespace MinhServer
open CString

inductive ProtocolType where
  | unknown
  | http
  | websocket
  | mqtt
  | sslTls
  deriving DecidableEq, Repr

/-- The result of a detection, with the defaults of `initProtocolInfo`. -/
structure ProtocolInfo where
  type : ProtocolType := .unknown
  isSecure : Bool := false
  versionMajor : Int := 0
  versionMinor : Int := 0
  method : Option Bytes := none
  path : Option Bytes := none
  contentLength : Int := -1
  deriving DecidableEq, Repr

/-- A byte `isTextProtocol` accepts: a tab or line control, ESC, or anything from 32 on. -/
def isTextByte (c : Byte) : Bool :=
  if c = 0 then false else !(c < 9 || (13 < c && c < 32 && c ≠ 27))

def isTextProtocol (data : Bytes) (len : Nat) : Bool :=
  (data.take (min len 100)).all isTextByte

/-- A `%d` conversion: `strtol` stored in an `int`. -/
def scanInt (tok : Bytes) : Int := int32 (strtol tok).1

/-- `"%15s %1023s %15s"`. -/
def requestLineFormat : List Directive :=
  [.str (some 15), .space, .str (some 1023), .space, .str (some 15)]

/-- The request line of the detector; `none` is its result 0. -/
def parseHttpRequestLine (line : Bytes) (info : ProtocolInfo) : Option ProtocolInfo :=
  match sscanf requestLineFormat line with
  | [method, path, version] =>
    let (major, minor) :=
      if version.take 5 = ascii "HTTP/" then
        match sscanf [.int, .lit 46, .int] (version.drop 5) with
        | [major, minor] => (scanInt major, scanInt minor)
        | [major] => (scanInt major, info.versionMinor)
        | _ => (info.versionMajor, info.versionMinor)
      else (info.versionMajor, info.versionMinor)
    some { info with
      versionMajor := major
      versionMinor := minor
      method := some method
      path := some path }
  | _ => none

/-- The effect of one header line: `line` starts at `ptr`, its name ends at `colon` and
`value` is what follows the colon and its spaces. -/
def parseHttpHeader (line : Bytes) (colon : Nat) (info : ProtocolInfo) : ProtocolInfo :=
  let value := (line.drop (colon + 1)).dropWhile (· == 32)
  if eqNoCase line (ascii "Upgrade") colon then
    if eqNoCase value (ascii "websocket") value.length then { info with type := .websocket }
    else info
  -- the value of Connection is searched for "upgrade" and the result not used
  else if eqNoCase line (ascii "Connection") colon then info
  else if eqNoCase line (ascii "Sec-WebSocket-Key") colon then { info with type := .websocket }
  else if eqNoCase line (ascii "Sec-WebSocket-Version") colon then
    { info with type := .websocket }
  else if eqNoCase line (ascii "Content-Length") colon then
    { info with contentLength := scanInt (value.take 31) }
  else info

/-- The loop over the lines of the head; `ptr` is the memory at the pointer and `len` what
is left of the length. -/
def parseHttpHeaders (ptr : Bytes) (len : Nat) (info : ProtocolInfo) : ProtocolInfo :=
  if len = 0 then info
  else
    match _h : strstr (cstr ptr) [13, 10] with
    | none => info
    | some lineEnd =>
      if lineEnd = 0 then info
      else
        let info :=
          match strchr (cstr ptr) 58 with
          | some colon =>
            if colon < lineEnd then parseHttpHeader (ptr.take lineEnd) colon info else info
          | none => info
        parseHttpHeaders (ptr.drop (lineEnd + 2)) (len - (lineEnd + 2)) info
termination_by ptr.length
decreasing_by
  have := strstr_end_le (by decide) _h
  have := List.IsPrefix.length_le <| cstr_isPrefix ptr
  simp only [List.length_cons, List.length_nil, List.length_drop] at *
  omega

/-- An MQTT CONNECT: packet type 1 with clear flags and the protocol name `MQTT`. -/
def detectMqttProtocol (data : Bytes) (len : Nat) : Bool :=
  if len < 2 then false
  else
    let firstByte := data.headD 0
    if firstByte &&& 0x0F ≠ 0 then false
    else decide ((firstByte >>> 4) &&& 0x0F = 1 ∧ 8 ≤ len ∧
      data[2]? = some 0 ∧ data[3]? = some 4 ∧ (data.drop 4).take 4 = ascii "MQTT")

/-- A TLS ClientHello in a handshake record. -/
def detectSslTlsProtocol (data : Bytes) (len : Nat) : Bool :=
  if len < 5 then false
  else decide (data[0]? = some 0x16 ∧ 5 < len ∧ data[5]? = some 1)

def detectProtocol (data : Bytes) (len : Nat) : ProtocolInfo :=
  let info : ProtocolInfo := {}
  if len = 0 then info
  else if detectMqttProtocol data len then { info with type := .mqtt }
  else if detectSslTlsProtocol data len then { info with type := .sslTls, isSecure := true }
  else if isTextProtocol data len then
    let info := { info with type := .http }
    match strstr (cstr data) [13, 10] with
    | some lineLen =>
      if lineLen < 1024 then
        match parseHttpRequestLine (data.take lineLen) info with
        | some info => parseHttpHeaders data len info
        | none => info
      else info
    | none => info
  else info

end MinhServer
