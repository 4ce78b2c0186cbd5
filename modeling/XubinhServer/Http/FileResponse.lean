import XubinhServer.Http.RoundTrip
import XubinhServer.Http.StaticFiles

/-! What the request callback of the example server sends. The head announces the size of a file
before the file has been mapped. -/
namespace XubinhServer

open MutableSizeTcpBuffer

/-- The order in which a header map is iterated. -/
abbrev IterationOrder := {order : Headers → Headers // ∀ h, (order h).Perm h}

/-- What is passed to `send`. -/
def HttpResponse.sendToTcpConnection (r : HttpResponse) (order : IterationOrder) :
    Except Halt (List UInt8) := do
  let buffer ← r.dumpToTcpBuffer (order.1 r.headers) .new
  pure buffer.unread

namespace StaticFiles

def html404FilePath : List UInt8 := bytes "./example/http/server/404.html"

def mimeMap : List (List UInt8 × List UInt8) :=
  [(bytes ".html", bytes "text/html"),
    (bytes ".htm", bytes "text/html"),
    (bytes ".css", bytes "text/css"),
    (bytes ".js", bytes "application/javascript"),
    (bytes ".json", bytes "application/json"),
    (bytes ".png", bytes "image/png"),
    (bytes ".jpg", bytes "image/jpeg"),
    (bytes ".jpeg", bytes "image/jpeg"),
    (bytes ".gif", bytes "image/gif"),
    (bytes ".txt", bytes "text/plain"),
    (bytes ".xml", bytes "application/xml"),
    (bytes ".pdf", bytes "application/pdf"),
    (bytes ".zip", bytes "application/zip"),
    (bytes ".mp3", bytes "audio/mpeg"),
    (bytes ".mp4", bytes "video/mp4")]

def defaultMimeType : List UInt8 := bytes "application/octet-stream"

/-- The string from its last dot on. -/
def suffix (filePath : List UInt8) : List UInt8 :=
  46 :: (filePath.reverse.takeWhile (· ≠ 46)).reverse

def getMimeType (filePath : List UInt8) : List UInt8 :=
  if 46 ∉ filePath then defaultMimeType
  else
    match mimeMap.find? (·.1 == suffix filePath) with
    | none => defaultMimeType
    | some entry => entry.2

/-- What the system calls on a file that is open return. -/
structure OpenedFile where
  fstat : Option Nat
  /-- the memory of the mapping -/
  mmap : Option (Nat → UInt8)
  munmapFails : Bool

section Callback

-- the literals' surroundings, `stat` and `open`, and the order of a header map
variable (behind : Nat → UInt8) (stat : List UInt8 → Bool)
  (openFile : List UInt8 → Option OpenedFile) (order : IterationOrder)

/-- What is sent, and the result. -/
def readFileAndSend (response : HttpResponse) (filePath : List UInt8) :
    Except Halt (List (List UInt8) × Bool) :=
  match openFile (cStr filePath) with
  | none => pure ([], false)
  | some file =>
    match file.fstat with
    | none => pure ([], false)
    | some fileSize => do
      let response := response.setHeader (bytes "Content-Length") (Decimal.print fileSize)
      let head ← response.sendToTcpConnection order
      match file.mmap with
      | none => pure ([head], false)
      | some mappedData => pure ([head, (List.range fileSize).map mappedData], !file.munmapFails)

/-- A response without its content length. -/
def fileResponse (statusCode : HttpStatusCode) (contentType : List UInt8) (needClose : Bool) :
    HttpResponse :=
  let response := (HttpResponse.new .unsupportedHttpVersion).setVersionType .http11
  let response := response.setStatusCode statusCode
  let response := response.setHeader (bytes "Content-Type") contentType
  if needClose then response.setHeader (bytes "Connection") (bytes "close") else response

def send404 (needClose : Bool) : Except Halt (List (List UInt8) × Bool) :=
  readFileAndSend openFile order
    (fileResponse .s404NotFound (bytes "text/html; charset=UTF-8") needClose) html404FilePath

def sendFile (needClose : Bool) (filePath : List UInt8) :
    Except Halt (List (List UInt8) × Bool) :=
  readFileAndSend openFile order (fileResponse .s200Ok (getMimeType filePath) needClose) filePath

/-- `http_request_callback` with what it passes to `send`. The results of `send_404` and
`send_file` are only logged. -/
def respond (isWriteEndShutdown : Bool) (request : HttpRequest) :
    Except Halt (List (List UInt8)) :=
  match httpRequestCallback behind stat isWriteEndShutdown request with
  | .nothing => pure []
  | .send404 => Prod.fst <$> send404 openFile order request.needClose
  | .sendFile path => Prod.fst <$> sendFile openFile order request.needClose path

/-- The file that the request is answered with. -/
def servedFile (request : HttpRequest) : List UInt8 :=
  match httpRequestCallback behind stat false request with
  | .sendFile path => path
  | _ => html404FilePath

end Callback

/-- The lines before the first blank one, and what follows that. -/
def splitHead : (fuel : Nat) → List UInt8 → Option (List (List UInt8) × List UInt8)
  | 0, _ => none
  | fuel + 1, message =>
    match crlfIndex message with
    | none => none
    | some n =>
      if n = 0 then some ([], message.drop 2)
      else (splitHead fuel (message.drop (n + 2))).map fun head =>
        (message.take n :: head.1, head.2)

/-- One response head, and as many bytes behind it as its only content length announces. -/
def IsResponse (message : List UInt8) : Prop :=
  ∃ statusLine fields body,
    splitHead message.length message = some (statusLine :: fields, body) ∧
    bytes "HTTP/1.1 " <+: statusLine ∧
    fields.filter (bytes "Content-Length:").isPrefixOf =
      [bytes "Content-Length:" ++ Decimal.print body.length]

/-- The file can be read: it could be opened, its size is known, and unless it is empty it could
be mapped. -/
def Readable (file : Option OpenedFile) : Prop :=
  ∃ opened fileSize, file = some opened ∧ opened.fstat = some fileSize ∧
    (fileSize = 0 ∨ ∃ mappedData, opened.mmap = some mappedData)

section Head

variable {statusLine body : List UInt8} {order : Headers} {fuel : Nat}

/-- The lines of the headers, without their ends. -/
def fieldLines (order : Headers) : List (List UInt8) := order.map fun e => e.1 ++ (58 :: e.2)

theorem splitHead_line {line rest : List UInt8} (hline : (13 : UInt8) ∉ line) (hne : line ≠ []) :
    splitHead (fuel + 1) (line ++ (bytes "\r\n" ++ rest)) =
      (splitHead fuel rest).map fun head => (line :: head.1, head.2) := by
  have hdrop : (line ++ (bytes "\r\n" ++ rest)).drop (line.length + 2) = rest := by
    rw [← List.append_assoc]
    exact List.drop_left' (by rw [List.length_append]; rfl)
  rw [splitHead, crlfIndex_of_line hline]
  simp only [List.length_eq_zero_iff, if_neg hne, hdrop, List.take_left]

theorem splitHead_blank : splitHead (fuel + 1) (bytes "\r\n" ++ body) = some ([], body) := rfl

theorem splitHead_fields (horder : ∀ line ∈ fieldLines order, (13 : UInt8) ∉ line)
    (hfuel : order.length < fuel) :
    splitHead fuel (HttpResponse.headerLines order ++ (bytes "\r\n" ++ body)) =
      some (fieldLines order, body) := by
  induction order generalizing fuel with
  | nil =>
    cases fuel with
    | zero => cases hfuel
    | succ fuel => exact splitHead_blank
  | cons e rest ih =>
    cases fuel with
    | zero => cases hfuel
    | succ fuel =>
      have hline := horder (e.1 ++ (58 :: e.2)) List.mem_cons_self
      have hsplit : HttpResponse.headerLines (e :: rest) ++ (bytes "\r\n" ++ body) =
          (e.1 ++ (58 :: e.2)) ++ (bytes "\r\n" ++
            (HttpResponse.headerLines rest ++ (bytes "\r\n" ++ body))) := by
        simp [HttpResponse.headerLines]
      rw [hsplit, splitHead_line hline (by simp),
        ih (fun line hmem => horder line (List.mem_cons_of_mem _ hmem))
          (Nat.lt_of_succ_lt_succ hfuel)]
      rfl

theorem length_headerLines (order : Headers) :
    order.length ≤ (HttpResponse.headerLines order).length := by
  induction order with
  | nil => exact Nat.zero_le _
  | cons e rest ih =>
    have hlength : (HttpResponse.headerLines (e :: rest)).length =
        (e.1 ++ (58 :: e.2) ++ bytes "\r\n").length +
          (HttpResponse.headerLines rest).length := by
      rw [← List.length_append]
      rfl
    have hpos : 0 < (e.1 ++ (58 :: e.2) ++ bytes "\r\n").length := by simp
    rw [hlength, List.length_cons]
    omega

/-- A head whose one content length is `n` is followed by a body of this length, or the message
is no response. -/
theorem isResponse_iff {n : Nat} (hstatus : (13 : UInt8) ∉ statusLine)
    (hversion : bytes "HTTP/1.1 " <+: statusLine)
    (horder : ∀ line ∈ fieldLines order, (13 : UInt8) ∉ line)
    (hlength : (fieldLines order).filter (bytes "Content-Length:").isPrefixOf =
      [bytes "Content-Length:" ++ Decimal.print n]) :
    IsResponse (statusLine ++ (bytes "\r\n" ++
      (HttpResponse.headerLines order ++ (bytes "\r\n" ++ body)))) ↔ n = body.length := by
  have hne : statusLine ≠ [] := by
    intro hnil
    rw [hnil] at hversion
    exact absurd hversion (by decide)
  have hfuel : ∃ fuel, (statusLine ++ (bytes "\r\n" ++
      (HttpResponse.headerLines order ++ (bytes "\r\n" ++ body)))).length = fuel + 1 ∧
      order.length < fuel := by
    have hlines := length_headerLines order
    refine ⟨statusLine.length + 1 + (HttpResponse.headerLines order).length + 2 + body.length,
      ?_, by omega⟩
    simp only [List.length_append, bytes]
    simp
    omega
  obtain ⟨fuel, hmessage, hlt⟩ := hfuel
  rw [IsResponse, hmessage, splitHead_line hstatus hne, splitHead_fields horder hlt]
  constructor
  · intro h
    obtain ⟨_, fields, body', hsplit, _, hfields⟩ := h
    cases hsplit
    rw [hlength] at hfields
    have hprint := List.append_cancel_left (List.singleton_inj.mp hfields)
    rw [← Decimal.value_print n, hprint, Decimal.value_print]
  · intro hn
    exact ⟨statusLine, _, body, rfl, hversion, hn ▸ hlength⟩

end Head

section FileHead

variable {statusCode : HttpStatusCode} {contentType : List UInt8} {needClose : Bool} {n : Nat}
  {order : IterationOrder}

theorem sendToTcpConnection_eq {r : HttpResponse} {version : List UInt8}
    (hstatus : r.statusCode ≠ .sNone) (hversion : r.getVersionTypeAsString = some version) :
    r.sendToTcpConnection order = .ok (HttpResponse.statusLine version r.statusCode ++
      (bytes "\r\n" ++ (HttpResponse.headerLines (order.1 r.headers) ++
        (bytes "\r\n" ++ r.body)))) := by
  obtain ⟨c, hc, _, hunread⟩ :=
    HttpResponse.dumpToTcpBuffer_spec hstatus hversion (order.1 r.headers) valid_new
  rw [HttpResponse.sendToTcpConnection, hc]
  exact congrArg Except.ok hunread

/-- A file's response with its content length. -/
def sizedResponse (statusCode : HttpStatusCode) (contentType : List UInt8) (needClose : Bool)
    (n : Nat) : HttpResponse :=
  (fileResponse statusCode contentType needClose).setHeader (bytes "Content-Length")
    (Decimal.print n)

theorem headers_sizedResponse : (sizedResponse statusCode contentType needClose n).headers =
    (bytes "Content-Type", contentType) ::
      ((if needClose then [(bytes "Connection", bytes "close")] else []) ++
        [(bytes "Content-Length", Decimal.print n)]) := by
  cases needClose with
  | true => rfl
  | false => rfl

theorem fieldLines_sizedResponse (hcontentType : (13 : UInt8) ∉ contentType) :
    (∀ line ∈ fieldLines (order.1 (sizedResponse statusCode contentType needClose n).headers),
      (13 : UInt8) ∉ line) ∧
    (fieldLines (order.1 (sizedResponse statusCode contentType needClose n).headers)).filter
      (bytes "Content-Length:").isPrefixOf = [bytes "Content-Length:" ++ Decimal.print n] := by
  have hdigits : (13 : UInt8) ∉ Decimal.print n := by
    intro hmem
    exact absurd (Decimal.isDigit_of_mem_print hmem) (by decide)
  have hperm : (fieldLines
      (order.1 (sizedResponse statusCode contentType needClose n).headers)).Perm
      ((bytes "Content-Type:" ++ contentType) ::
        ((if needClose then [bytes "Connection:close"] else []) ++
          [bytes "Content-Length:" ++ Decimal.print n])) := by
    have hlines := (order.2 (sizedResponse statusCode contentType needClose n).headers).map
      fun e => e.1 ++ (58 :: e.2)
    have hsame : (sizedResponse statusCode contentType needClose n).headers.map
        (fun e => e.1 ++ (58 :: e.2)) = (bytes "Content-Type:" ++ contentType) ::
          ((if needClose then [bytes "Connection:close"] else []) ++
            [bytes "Content-Length:" ++ Decimal.print n]) := by
      rw [headers_sizedResponse]
      cases needClose with
      | true => rfl
      | false => rfl
    exact hsame ▸ hlines
  constructor
  · intro line hline
    have hmem := hperm.mem_iff.mp hline
    cases List.mem_cons.mp hmem with
    | inl heq =>
      rw [heq, List.mem_append, not_or]
      exact ⟨by decide, hcontentType⟩
    | inr hmem =>
      cases List.mem_append.mp hmem with
      | inl hclose =>
        cases needClose with
        | true =>
          rw [List.mem_singleton.mp hclose]
          decide
        | false => cases hclose
      | inr hlength =>
        rw [List.mem_singleton.mp hlength, List.mem_append, not_or]
        exact ⟨by decide, hdigits⟩
  · refine List.perm_singleton.mp ((hperm.filter _).trans ?_)
    cases needClose with
    | true => exact List.Perm.refl _
    | false => exact List.Perm.refl _

end FileHead

section Reply

variable {behind : Nat → UInt8} {stat : List UInt8 → Bool}
  {openFile : List UInt8 → Option OpenedFile} {order : IterationOrder} {request : HttpRequest}
  {statusCode : HttpStatusCode} {contentType filePath : List UInt8} {needClose : Bool}

theorem not_isResponse_nil : ¬IsResponse [] := by
  intro h
  obtain ⟨_, _, _, hsplit, _⟩ := h
  cases hsplit

/-- The head of the response for a file of `n` bytes. -/
def fileHead (order : IterationOrder) (statusCode : HttpStatusCode) (contentType : List UInt8)
    (needClose : Bool) (n : Nat) : List UInt8 :=
  HttpResponse.statusLine (bytes "HTTP/1.1") statusCode ++ (bytes "\r\n" ++
    (HttpResponse.headerLines
      (order.1 (sizedResponse statusCode contentType needClose n).headers) ++ bytes "\r\n"))

theorem readFileAndSend_eq (hstatus : statusCode ≠ .sNone) :
    Prod.fst <$> readFileAndSend openFile order
        (fileResponse statusCode contentType needClose) filePath =
      .ok (match openFile (cStr filePath) with
        | none => []
        | some file =>
          match file.fstat with
          | none => []
          | some n =>
            fileHead order statusCode contentType needClose n ::
              match file.mmap with
              | none => []
              | some mappedData => [(List.range n).map mappedData]) := by
  rw [readFileAndSend]
  cases openFile (cStr filePath) with
  | none => rfl
  | some file =>
    cases hfstat : file.fstat with
    | none =>
      simp only [hfstat]
      rfl
    | some n =>
      have hcode : (sizedResponse statusCode contentType needClose n).statusCode = statusCode := by
        cases needClose with
        | true => rfl
        | false => rfl
      have hversion : (sizedResponse statusCode contentType needClose n).getVersionTypeAsString =
          some (bytes "HTTP/1.1") := by
        cases needClose with
        | true => rfl
        | false => rfl
      have hbody : (sizedResponse statusCode contentType needClose n).body = [] := by
        cases needClose with
        | true => rfl
        | false => rfl
      have hhead : (sizedResponse statusCode contentType needClose n).sendToTcpConnection order =
          .ok (fileHead order statusCode contentType needClose n) := by
        rw [sendToTcpConnection_eq (hcode.symm ▸ hstatus) hversion, hcode, hbody, fileHead,
          List.append_nil]
      rw [sizedResponse] at hhead
      simp only [hfstat, hhead, bind, Except.bind]
      cases file.mmap with
      | none => rfl
      | some mappedData => rfl

theorem isResponse_fileHead (order : IterationOrder) (statusCode : HttpStatusCode)
    (needClose : Bool) (n : Nat) (body : List UInt8) (hcontentType : (13 : UInt8) ∉ contentType) :
    IsResponse (fileHead order statusCode contentType needClose n ++ body) ↔ n = body.length := by
  obtain ⟨hlines, hlength⟩ := @fieldLines_sizedResponse statusCode contentType needClose n order
    hcontentType
  have hstatusLine : (13 : UInt8) ∉ HttpResponse.statusLine (bytes "HTTP/1.1") statusCode :=
    HttpResponse.cr_not_mem_statusLine (r := HttpResponse.new .http11) rfl statusCode
  have hversion : bytes "HTTP/1.1 " <+: HttpResponse.statusLine (bytes "HTTP/1.1") statusCode :=
    List.prefix_append _ _
  have hsplit : fileHead order statusCode contentType needClose n ++ body =
      HttpResponse.statusLine (bytes "HTTP/1.1") statusCode ++ (bytes "\r\n" ++
        (HttpResponse.headerLines
          (order.1 (sizedResponse statusCode contentType needClose n).headers) ++
            (bytes "\r\n" ++ body))) := by
    simp [fileHead]
  rw [hsplit]
  exact isResponse_iff hstatusLine hversion hlines hlength

theorem readable_some {file : OpenedFile} {n : Nat} (hfstat : file.fstat = some n) :
    Readable (some file) ↔ n = 0 ∨ ∃ mappedData, file.mmap = some mappedData := by
  constructor
  · intro h
    obtain ⟨_, fileSize, hopened, hsize, hmapped⟩ := h
    cases hopened
    cases hfstat.symm.trans hsize
    exact hmapped
  · intro h
    exact ⟨file, n, rfl, hfstat, h⟩

/-- The whole of what is sent for a file is a response exactly if the file is readable. -/
theorem readFileAndSend_iff (hstatus : statusCode ≠ .sNone)
    (hcontentType : (13 : UInt8) ∉ contentType) :
    (∃ sends, Prod.fst <$> readFileAndSend openFile order
        (fileResponse statusCode contentType needClose) filePath = .ok sends ∧
      IsResponse sends.flatten) ↔ Readable (openFile (cStr filePath)) := by
  rw [readFileAndSend_eq hstatus]
  simp only [Except.ok.injEq, exists_eq_left']
  cases hopen : openFile (cStr filePath) with
  | none => simp [not_isResponse_nil, Readable]
  | some file =>
    cases hfstat : file.fstat with
    | none => simp [hfstat, not_isResponse_nil, Readable]
    | some n =>
      cases hmmap : file.mmap with
      | none =>
        simp only [hfstat, hmmap, List.flatten_cons, List.flatten_nil]
        rw [isResponse_fileHead order statusCode needClose n [] hcontentType, readable_some hfstat]
        simp [hmmap]
      | some mappedData =>
        simp only [hfstat, hmmap, List.flatten_cons, List.flatten_nil, List.append_nil]
        rw [isResponse_fileHead order statusCode needClose n _ hcontentType, readable_some hfstat]
        simp [hmmap]

theorem cr_not_mem_getMimeType (filePath : List UInt8) : (13 : UInt8) ∉ getMimeType filePath := by
  have htable : ∀ entry ∈ mimeMap, (13 : UInt8) ∉ entry.2 := by decide
  rw [getMimeType]
  split
  · decide
  · split
    · decide
    · rename_i entry hfound
      exact htable entry (List.mem_of_find?_eq_some hfound)

theorem httpRequestCallback_open :
    httpRequestCallback behind stat false request ≠ .nothing := by
  simp only [httpRequestCallback, Bool.false_eq_true, if_false]
  split
  · exact nofun
  · split
    · exact nofun
    · split
      · exact nofun
      · exact nofun

/-- On an open connection all that is sent is one response with the body that it announces, if and
only if the file that the request is answered with can be opened, its size is known, and unless it
is empty it can be mapped. -/
theorem answered_iff (behind : Nat → UInt8) (stat : List UInt8 → Bool)
    (openFile : List UInt8 → Option OpenedFile) (order : IterationOrder)
    (request : HttpRequest) :
    (∃ sends, respond behind stat openFile order false request = .ok sends ∧
      IsResponse sends.flatten) ↔
      Readable (openFile (cStr (servedFile behind stat request))) := by
  rw [respond, servedFile]
  cases hreply : httpRequestCallback behind stat false request with
  | nothing => exact absurd hreply httpRequestCallback_open
  | send404 => exact readFileAndSend_iff (by decide) (by decide)
  | sendFile path => exact readFileAndSend_iff (by decide) (cr_not_mem_getMimeType path)

/-- A request for `/index.html`, which is looked for in the root of the file system. -/
theorem not_answered_indexHtml : ¬∀ (behind : Nat → UInt8) (stat : List UInt8 → Bool)
    (openFile : List UInt8 → Option OpenedFile) (order : IterationOrder)
    (request : HttpRequest), ∃ sends,
      respond behind stat openFile order false request = .ok sends ∧
        IsResponse sends.flatten := by
  intro h
  obtain ⟨sends, hsends, hresponse⟩ := h (fun _ => 0) (fun _ => true)
    (fun path => if path = bytes "/index.html" then none else some ⟨some 0, none, false⟩)
    ⟨id, fun h => List.Perm.refl h⟩
    { HttpRequest.new with method := .get, path := bytes "/index.html", version := .http11 }
  have hnothing : sends = [] := by
    have hnone : Except.ok sends = Except.ok [] := hsends.symm.trans (by rfl)
    exact Except.ok.inj hnone
  rw [hnothing] at hresponse
  exact not_isResponse_nil hresponse

end Reply

end StaticFiles

end XubinhServer
