import AdvCppHW.Cpp.ByteString

/-!
# Status codes

`enum class StatusCode` and `getCodeMessage` of `HTTP/HTTPMessageData.cpp`.
-/

namespace AdvCppHW
namespace HTTP

/-- `enum class StatusCode`.  Any `int` can be cast to it, so it is not restricted to its
enumerators. -/
abbrev StatusCode := Int

/-- `StatusCode::NONE`. -/
def StatusCode.NONE : StatusCode := 0

/-- The reason phrase of a code; empty for a code without one. -/
def getCodeMessage (code : StatusCode) : Bytes :=
  match code with
  | 100 => ascii "Continue"
  | 101 => ascii "Switching Protocols"
  | 102 => ascii "Processing"
  | 200 => ascii "OK"
  | 201 => ascii "Created"
  | 202 => ascii "Accepted"
  | 203 => ascii "Non-Authoritative Information"
  | 204 => ascii "No Content"
  | 205 => ascii "Reset Content"
  | 206 => ascii "Partial Content"
  | 207 => ascii "Multi-Status"
  | 208 => ascii "Already Reported"
  | 226 => ascii "IM Used"
  | 300 => ascii "Multiple Choices"
  | 301 => ascii "Moved Permanently"
  | 302 => ascii "Found"
  | 303 => ascii "See Other"
  | 304 => ascii "Not Modified"
  | 305 => ascii "Use Proxy"
  | 307 => ascii "Temporary Redirect"
  | 308 => ascii "Permanent Redirect"
  | 400 => ascii "Bad Request"
  | 401 => ascii "Unauthrized"
  | 402 => ascii "Payment Required"
  | 403 => ascii "Forbidden"
  | 404 => ascii "Not Found"
  | 405 => ascii "Method Not Allowed"
  | 406 => ascii "Not Acceptable"
  | 407 => ascii "Proxy Authentication Required"
  | 408 => ascii "Request Timeout"
  | 409 => ascii "Conflict"
  | 410 => ascii "Gone"
  | 411 => ascii "Length Required"
  | 412 => ascii "Precondition Failed"
  | 413 => ascii "Payload Too Large"
  | 414 => ascii "URI Too Long"
  | 415 => ascii "Unsupported Media Type"
  | 416 => ascii "Requested Range Not Satisfiable"
  | 417 => ascii "Expectation Failed"
  | 418 => ascii "I'm a teapot"
  | 419 => ascii "Authentication Timeout"
  | 421 => ascii "Misdirected Request"
  | 422 => ascii "UnprocessableEntity"
  | 423 => ascii "Locked"
  | 424 => ascii "Failed Dependency"
  | 426 => ascii "Upgrade Required"
  | 428 => ascii "Precondition Required"
  | 429 => ascii "Too Many Requests"
  | 431 => ascii "Request Header Fields Too Large"
  | 444 => ascii "Connection Closed Without Response"
  | 449 => ascii "Retry With"
  | 451 => ascii "Unavailable For Legal Reasons"
  | 499 => ascii "Client Closed Request"
  | 500 => ascii "Internal Server Error"
  | 501 => ascii "Not Implemented"
  | 502 => ascii "Bad Gateway"
  | 503 => ascii "Service Unavailable"
  | 504 => ascii "Gateway Timeout"
  | 505 => ascii "HTTP Version Not Supported"
  | 506 => ascii "Variant Also Negotiates"
  | 507 => ascii "Insufficient Storage"
  | 508 => ascii "Loop Detected"
  | 509 => ascii "Bandwidth Limit Exceeded"
  | 510 => ascii "Not Extended"
  | 511 => ascii "Network Authentication Required"
  | 520 => ascii "Unknown Error"
  | 521 => ascii "Web Server Is Down"
  | 522 => ascii "Connection Timed Out"
  | 523 => ascii "Origin Is Unreachable"
  | 524 => ascii "A Timeout Occured"
  | 525 => ascii "SSL Handshake Failed"
  | 599 => ascii "Invalid SSL Certificate"
  | _ => []

end HTTP
end AdvCppHW
