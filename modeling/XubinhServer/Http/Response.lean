import Mathlib.Data.List.Nodup
import XubinhServer.Http.Request
import XubinhServer.Lib.Decimal
import XubinhServer.TcpBuffer

/-! An HTTP response and how it is written into a buffer. -/
namespace XubinhServer

inductive HttpStatusCode where
  | sNone
  | s100Continue
  | s101SwitchingProtocols
  | s102Processing
  | s200Ok
  | s201Created
  | s202Accepted
  | s203NonAuthoritativeInformation
  | s204NoContent
  | s205ResetContent
  | s206PartialContent
  | s207MultiStatus
  | s208AlreadyReported
  | s226ImUsed
  | s300MultipleChoices
  | s301MovedPermanently
  | s302Found
  | s303SeeOther
  | s304NotModified
  | s305UseProxy
  | s307TemporaryRedirect
  | s308PermanentRedirect
  | s400BadRequest
  | s401Unauthorized
  | s402PaymentRequired
  | s403Forbidden
  | s404NotFound
  | s405MethodNotAllowed
  | s406NotAcceptable
  | s407ProxyAuthenticationRequired
  | s408RequestTimeout
  | s409Conflict
  | s410Gone
  | s411LengthRequired
  | s412PreconditionFailed
  | s413PayloadTooLarge
  | s414UriTooLong
  | s415UnsupportedMediaType
  | s416RangeNotSatisfiable
  | s417ExpectationFailed
  | s418ImATeapot
  | s421MisdirectedRequest
  | s422UnprocessableEntity
  | s423Locked
  | s424FailedDependency
  | s425TooEarly
  | s426UpgradeRequired
  | s428PreconditionRequired
  | s429TooManyRequests
  | s431RequestHeaderFieldsTooLarge
  | s451UnavailableForLegalReasons
  | s500InternalServerError
  | s501NotImplemented
  | s502BadGateway
  | s503ServiceUnavailable
  | s504GatewayTimeout
  | s505HttpVersionNotSupported
  | s506VariantAlsoNegotiates
  | s507InsufficientStorage
  | s508LoopDetected
  | s510NotExtended
  | s511NetworkAuthenticationRequired
  deriving DecidableEq, Repr

def HttpStatusCode.description : HttpStatusCode → String
  | .s100Continue => "100 Continue"
  | .s101SwitchingProtocols => "101 Switching Protocols"
  | .s102Processing => "102 Processing"
  | .s200Ok => "200 OK"
  | .s201Created => "201 Created"
  | .s202Accepted => "202 Accepted"
  | .s203NonAuthoritativeInformation => "203 Non Authoritative Information"
  | .s204NoContent => "204 No Content"
  | .s205ResetContent => "205 Reset Content"
  | .s206PartialContent => "206 Partial Content"
  | .s207MultiStatus => "207 Multi Status"
  | .s208AlreadyReported => "208 Already Reported"
  | .s226ImUsed => "226 Im Used"
  | .s300MultipleChoices => "300 Multiple Choices"
  | .s301MovedPermanently => "301 Moved Permanently"
  | .s302Found => "302 Found"
  | .s303SeeOther => "303 See Other"
  | .s304NotModified => "304 Not Modified"
  | .s305UseProxy => "305 Use Proxy"
  | .s307TemporaryRedirect => "307 Temporary Redirect"
  | .s308PermanentRedirect => "308 Permanent Redirect"
  | .s400BadRequest => "400 Bad Request"
  | .s401Unauthorized => "401 Unauthorized"
  | .s402PaymentRequired => "402 Payment Required"
  | .s403Forbidden => "403 Forbidden"
  | .s404NotFound => "404 Not Found"
  | .s405MethodNotAllowed => "405 Method Not Allowed"
  | .s406NotAcceptable => "406 Not Acceptable"
  | .s407ProxyAuthenticationRequired => "407 Proxy Authentication Required"
  | .s408RequestTimeout => "408 Request Timeout"
  | .s409Conflict => "409 Conflict"
  | .s410Gone => "410 Gone"
  | .s411LengthRequired => "411 Length Required"
  | .s412PreconditionFailed => "412 Precondition Failed"
  | .s413PayloadTooLarge => "413 Payload Too Large"
  | .s414UriTooLong => "414 URI Too Long"
  | .s415UnsupportedMediaType => "415 Unsupported Media Type"
  | .s416RangeNotSatisfiable => "416 Range Not Satisfiable"
  | .s417ExpectationFailed => "417 Expectation Failed"
  | .s418ImATeapot => "418 Im A Teapot"
  | .s421MisdirectedRequest => "421 Misdirected Request"
  | .s422UnprocessableEntity => "422 Unprocessable Entity"
  | .s423Locked => "423 Locked"
  | .s424FailedDependency => "424 Failed Dependency"
  | .s425TooEarly => "425 Too Early"
  | .s426UpgradeRequired => "426 Upgrade Required"
  | .s428PreconditionRequired => "428 Precondition Required"
  | .s429TooManyRequests => "429 Too Many Requests"
  | .s431RequestHeaderFieldsTooLarge => "431 Request Header Fields Too Large"
  | .s451UnavailableForLegalReasons => "451 Unavailable For Legal Reasons"
  | .s500InternalServerError => "500 Internal Server Error"
  | .s501NotImplemented => "501 Not Implemented"
  | .s502BadGateway => "502 Bad Gateway"
  | .s503ServiceUnavailable => "503 Service Unavailable"
  | .s504GatewayTimeout => "504 Gateway Timeout"
  | .s505HttpVersionNotSupported => "505 HTTP Version Not Supported"
  | .s506VariantAlsoNegotiates => "506 Variant Also Negotiates"
  | .s507InsufficientStorage => "507 Insufficient Storage"
  | .s508LoopDetected => "508 Loop Detected"
  | .s510NotExtended => "510 Not Extended"
  | .s511NetworkAuthenticationRequired => "511 Network Authentication Required"
  | .sNone => "unknown http status code"

namespace Headers

/-- No key occurs twice. -/
def Distinct (h : Headers) : Prop := (h.map Prod.fst).Nodup

variable {h : Headers} {key value key' : List UInt8}

theorem mem_assign_keys :
    key' ∈ (h.assign key value).map Prod.fst ↔ key' = key ∨ key' ∈ h.map Prod.fst := by
  induction h with
  | nil => simp [assign]
  | cons e rest ih =>
    rw [assign]
    split
    · rename_i heq
      have hkey : e.1 = key := by simpa using heq
      simp [hkey]
    · simp only [List.map_cons, List.mem_cons, ih]
      tauto

theorem Distinct.assign (hd : Distinct h) (key value : List UInt8) :
    Distinct (h.assign key value) := by
  induction h with
  | nil => exact List.nodup_singleton key
  | cons e rest ih =>
    obtain ⟨hkey, hrest⟩ := List.nodup_cons.mp hd
    rw [Headers.assign]
    split
    · rename_i heq
      have he : e.1 = key := by simpa using heq
      exact List.nodup_cons.mpr ⟨he ▸ hkey, hrest⟩
    · rename_i hne
      refine List.nodup_cons.mpr ⟨fun hmem => ?_, ih hrest⟩
      cases mem_assign_keys.mp hmem with
      | inl heq => exact hne (by simpa using heq)
      | inr hmem => exact hkey hmem

theorem mem_assign_self : (key, value) ∈ h.assign key value := by
  induction h with
  | nil => exact List.mem_singleton_self _
  | cons e rest ih =>
    rw [assign]
    split
    · exact List.mem_cons_self
    · exact List.mem_cons_of_mem _ ih

/-- Only what is in the map is found. -/
theorem find_of_mem (hd : Distinct h) (hmem : (key, value) ∈ h) : h.find key = some value := by
  induction h with
  | nil => cases hmem
  | cons e rest ih =>
    obtain ⟨hkey, hrest⟩ := List.nodup_cons.mp hd
    cases List.mem_cons.mp hmem with
    | inl heq => simp [find, ← heq]
    | inr hmem =>
      have hne : e.1 ≠ key := fun heq => hkey (heq ▸ List.mem_map_of_mem hmem)
      have hfind := ih hrest hmem
      rw [find] at hfind ⊢
      rwa [List.find?_cons_of_neg (by simpa using hne)]

end Headers

/-- The headers are a map: no key occurs twice. -/
structure HttpResponse where
  version : HttpVersionType
  statusCode : HttpStatusCode
  headers : Headers
  body : List UInt8
  distinct : headers.Distinct

namespace HttpResponse

/-- The constructor leaves `_version` as it finds it. -/
def new (version : HttpVersionType) : HttpResponse := ⟨version, .sNone, [], [], List.nodup_nil⟩

/-- `none` stands for the null pointer. -/
def getVersionTypeAsString (r : HttpResponse) : Option (List UInt8) :=
  match r.version with
  | .http10 => some (bytes "HTTP/1.0")
  | .http11 => some (bytes "HTTP/1.1")
  | .unsupportedHttpVersion => none

def setVersionType (r : HttpResponse) (version : HttpVersionType) : HttpResponse :=
  { r with version := version }

def setStatusCode (r : HttpResponse) (statusCode : HttpStatusCode) : HttpResponse :=
  { r with statusCode := statusCode }

def setHeader (r : HttpResponse) (key value : List UInt8) : HttpResponse where
  version := r.version
  statusCode := r.statusCode
  headers := r.headers.assign key value
  body := r.body
  distinct := r.distinct.assign key value

/-- The overload that takes a constant reference. -/
def setBody (r : HttpResponse) (body : List UInt8) : HttpResponse :=
  { r with body := body }.setHeader (bytes "Content-Length") (Decimal.print body.length)

def appendCrlf (b : MutableSizeTcpBuffer) : Except Halt MutableSizeTcpBuffer :=
  b.append (bytes "\r\n")

/-- The loop over the headers, in the order in which the map is iterated. -/
def dumpHeaders : Headers → MutableSizeTcpBuffer → Except Halt MutableSizeTcpBuffer
  | [], b => pure b
  | (key, value) :: rest, b => do
    let b ← b.append key
    let b ← b.append (bytes ":")
    let b ← b.append value
    let b ← appendCrlf b
    dumpHeaders rest b

/-- `dump_to_tcp_buffer`, where `order` is the order in which the header map is iterated. -/
def dumpToTcpBuffer (r : HttpResponse) (order : Headers) (b : MutableSizeTcpBuffer) :
    Except Halt MutableSizeTcpBuffer :=
  if r.statusCode = .sNone then
    throw (.logFatal ("tried to dump a http response before setting the " ++ "status code"))
  else
    match r.getVersionTypeAsString with
    | none => throw .nullPointer
    | some version => do
      let b ← b.append version
      let b ← b.append (bytes " ")
      let b ← b.append (bytes r.statusCode.description)
      let b ← appendCrlf b
      let b ← dumpHeaders order b
      let b ← appendCrlf b
      if r.body = [] then pure b else b.append r.body

end HttpResponse

end XubinhServer
