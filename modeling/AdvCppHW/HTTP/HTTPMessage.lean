import AdvCppHW.HTTP.HTTPMessageData
import AdvCppHW.Support.OrdMap

/-!
# HTTP messages

The classes `HTTPMessage`, `HTTPRequest` and `HTTPResponse` of `HTTP/HTTPMessage.cpp`: their fields,
`toString` and `fromString`.

Parsing writes to the object as it goes, so `fromString` is a `Method`: the fields set before a
throw stay set.  `headerLoop` and `readBody` are the parts of `fromString` that requests and
responses share; they differ in the texts of their errors, which are parameters.
-/

namespace AdvCppHW
namespace HTTP

open Support

/-- `std::map<std::string, std::string>`. -/
abbrev Headers := OrdMap Bytes Bytes

/-- The fields of `HTTPMessage`. -/
structure HTTPMessage where
  m_version : Bytes := []
  m_headers : Headers := OrdMap.empty
  m_body : Bytes := []
deriving DecidableEq

/-- The fields of `HTTPRequest`; the default value is what the default constructor builds. -/
structure HTTPRequest extends HTTPMessage where
  m_method : Bytes := []
  m_reqTarget : Bytes := []
deriving DecidableEq

/-- The fields of `HTTPResponse`; the default constructor sets `StatusCode::NONE`. -/
structure HTTPResponse extends HTTPMessage where
  m_statusCode : StatusCode := .NONE
deriving DecidableEq

/-- `Protocol::HTTP`. -/
def protocolHTTP : Bytes := ascii "HTTP"

/-- `Request::ContentLength`, and `Response::ContentLength`. -/
def ContentLength : Bytes := ascii "Content-Length"

/-- `Request::Connection`. -/
def Connection : Bytes := ascii "Connection"

namespace HTTPMessage

def setHTTPversion (m : HTTPMessage) (version : Bytes) : HTTPMessage :=
  { m with m_version := version }

def addHeaderLine (m : HTTPMessage) (header info : Bytes) : HTTPMessage :=
  { m with m_headers := m.m_headers.assign header info }

def removeHeaderLine (m : HTTPMessage) (header : Bytes) : HTTPMessage :=
  { m with m_headers := m.m_headers.erase header }

def setBody (m : HTTPMessage) (body : Bytes) : HTTPMessage := { m with m_body := body }

def clearBody (m : HTTPMessage) : HTTPMessage := { m with m_body := [] }

/-- One line of the header block. -/
def headerLine (line : Bytes × Bytes) : Bytes := line.1 ++ (COLON ++ line.2)

def getHeaders (m : HTTPMessage) : Bytes :=
  m.m_headers.entries.flatMap fun line => headerLine line ++ CRLF

/-- First statement of both `toString`: add the length of a non-empty body unless the header is
there already. -/
def withContentLength (m : HTTPMessage) : HTTPMessage :=
  if m.m_headers.lookup ContentLength = none ∧ m.m_body.length ≠ 0 then
    { m with m_headers := m.m_headers.insertNew ContentLength (to_string m.m_body.length) }
  else
    m

/-- The size that `sscanf` reads from a `Content-Length` value into a zeroed variable. -/
def bodySize (value : Bytes) : Nat := ((sscanfZd value).map toSizeT).getD 0

/-- The line of `str` that starts at offset `begin`, up to its line break. -/
def readLine {σ : Type} (str : Bytes) (missing : String) (begin : Nat) : Method σ Bytes :=
  match find str CRLF begin with
  | none => throw (.ArgumentError missing)
  | some e => do
      let n ← sizeSub e begin
      substr str begin n

/-- The `while` loop of `fromString` over the header lines: `line` starts at offset `begin` of
`str`.  Returns the offset of the blank line. -/
def headerLoop (str : Bytes) (noColon noEnd : String) (begin : Nat) (line : Bytes) :
    Method HTTPMessage Nat :=
  if line.length = 0 then
    pure begin
  else
    match find line COLON 0 with
    | none => throw (.ArgumentError noColon)
    | some p => do
        let header ← substr line 0 p
        let info ← substr line (p + 2) line.length
        modify fun m => m.addHeaderLine header info
        match h : find str CRLF (begin + line.length + 2) with
        | none => throw (.ArgumentError noEnd)
        | some e => do
            let n ← sizeSub e (begin + line.length + 2)
            let next ← substr str (begin + line.length + 2) n
            headerLoop str noColon noEnd (begin + line.length + 2) next
termination_by str.length - begin
decreasing_by
  obtain ⟨a, b, hstr, hpos, -, -⟩ := findFrom_eq_some h
  have hlen := congrArg List.length hstr
  simp only [List.length_append, List.length_take, CRLF, List.length_cons, List.length_nil] at hlen
  omega

/-- Last statement of `fromString`: with a `Content-Length` header the rest of the string is the
body and must have that length; without one nothing is stored. -/
def readBody (str : Bytes) (mismatch : String) (begin : Nat) : Method HTTPMessage Unit := do
  let m ← get
  match m.m_headers.lookup ContentLength with
  | none => pure ()
  | some value => do
      let rest ← sizeSub str.length begin
      if rest ≠ bodySize value then
        throw (.ArgumentError mismatch)
      else do
        let body ← substr str begin (bodySize value)
        modify fun m => { m with m_body := body }

end HTTPMessage

namespace HTTPRequest

open HTTPMessage

/-- Run a member of the base class on the request. -/
def onMessage {α : Type} (f : Method HTTPMessage α) : Method HTTPRequest α := fun r =>
  match f r.toHTTPMessage with
  | .ok a m => .ok a { r with toHTTPMessage := m }
  | .error e m => .error e { r with toHTTPMessage := m }

/-- `HTTPRequest::toString`, with the request as it is afterwards. -/
def toString (r : HTTPRequest) : Bytes × HTTPRequest :=
  let r : HTTPRequest := { r with toHTTPMessage := r.withContentLength }
  (r.m_method ++ (SP ++ (r.m_reqTarget ++ (SP ++ (protocolHTTP ++ (SLASH ++ (r.m_version ++
    (CRLF ++ (r.getHeaders ++ (CRLF ++ r.m_body))))))))), r)

/-- The part of `fromString` that cuts the first line into method, target and version. -/
def readRequestLine (line : Bytes) : Method HTTPRequest Unit :=
  match find line SP 0 with
  | none => throw (.ArgumentError "Method: Invalid string passed!")
  | some e => do
      let method ← substr line 0 (← sizeSub e 0)
      modify fun r => { r with m_method := method }
      let begin := e + 1
      match find line SP begin with
      | none => throw (.ArgumentError "Target: Invalid string passed!")
      | some e => do
          let reqTarget ← substr line begin (← sizeSub e begin)
          modify fun r => { r with m_reqTarget := reqTarget }
          let begin := e + 1
          match find line SLASH begin with
          | none => throw (.ArgumentError "Version: Invalid string passed!")
          | some begin => do
              let begin := begin + 1
              let version ← substr line begin (← sizeSub line.length begin)
              modify fun r => { r with m_version := version }

/-- `HTTPRequest::fromString`. -/
def fromString (str : Bytes) : Method HTTPRequest Unit := do
  let line ← readLine str "Invalid string passed!" 0
  readRequestLine line
  let begin := line.length + 2
  let line ← readLine str "Invalid string passed!" begin
  let begin ← onMessage (headerLoop str "Header: Invalid string passed!"
    "Header Info: Invalid string passed!" begin line)
  onMessage (readBody str "Body: Invalid string passed!" (begin + 2))

/-- The constructor `HTTPRequest{request}`. -/
def ofString (request : Bytes) : Except Exception HTTPRequest :=
  match (fromString request).run {} with
  | .ok _ r => .ok r
  | .error e _ => .error e

/-- `std::tolower` in the C locale. -/
def tolower (b : UInt8) : UInt8 := if 65 ≤ b && b ≤ 90 then b + 32 else b

/-- `HTTPRequest::doKeepAlive`. -/
def doKeepAlive (r : HTTPRequest) : Bool :=
  match r.m_headers.lookup Connection with
  | none => false
  | some params => params.map tolower = ascii "keep-alive"

end HTTPRequest

/-- `std::to_string` of an `int`. -/
def to_stringInt (v : Int) : Bytes :=
  if v < 0 then ascii "-" ++ to_string v.natAbs else to_string v.natAbs

namespace HTTPResponse

open HTTPMessage

/-- Run a member of the base class on the response. -/
def onMessage {α : Type} (f : Method HTTPMessage α) : Method HTTPResponse α := fun r =>
  match f r.toHTTPMessage with
  | .ok a m => .ok a { r with toHTTPMessage := m }
  | .error e m => .error e { r with toHTTPMessage := m }

/-- `HTTPResponse::toString`, with the response as it is afterwards. -/
def toString (r : HTTPResponse) : Bytes × HTTPResponse :=
  let r : HTTPResponse := { r with toHTTPMessage := r.withContentLength }
  (protocolHTTP ++ (SLASH ++ (r.m_version ++ (SP ++ (to_stringInt r.m_statusCode ++ (SP ++
    (getCodeMessage r.m_statusCode ++ (CRLF ++ (r.getHeaders ++ (CRLF ++ r.m_body))))))))), r)

/-- The part of `fromString` that cuts the first line into version and status code.  Both `'/'` and
`' '` are searched from the start of the line. -/
def readStatusLine (line : Bytes) : Method HTTPResponse Unit :=
  match find line SLASH 0 with
  | none => throw (.ArgumentError "Invalid string passed!")
  | some begin => do
      let begin := begin + 1
      match find line SP 0 with
      | none => throw (.ArgumentError "Invalid string passed!")
      | some e => do
          let version ← substr line begin (wrapSub e begin)
          modify fun r => { r with m_version := version }
          let begin := e + 1
          match find line SP begin with
          | none => throw (.ArgumentError "Invalid string passed!")
          | some e => do
              let code ← stoi (← substr line begin (← sizeSub e begin))
              modify fun r => { r with m_statusCode := code }

/-- `HTTPResponse::fromString`. -/
def fromString (str : Bytes) : Method HTTPResponse Unit := do
  let line ← readLine str "Invalid string passed!" 0
  readStatusLine line
  let begin := line.length + 2
  let line ← readLine str "Invalid string passed!" begin
  let begin ← onMessage
    (headerLoop str "Invalid string passed!" "Invalid string passed!" begin line)
  onMessage (readBody str "Invalid string passed!" (begin + 2))

/-- The constructor `HTTPResponse{response}`. -/
def ofString (response : Bytes) : Except Exception HTTPResponse :=
  match (fromString response).run {} with
  | .ok _ r => .ok r
  | .error e _ => .error e

end HTTPResponse
end HTTP
end AdvCppHW
