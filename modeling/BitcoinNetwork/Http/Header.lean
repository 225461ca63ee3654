import BitcoinNetwork.Http.Fields

/-!
# Headers and messages (messages/http/header.cpp, message.hpp, enums/verb.cpp, enums/status.cpp)

The start line of a request or a response, the fields, and the body. The body
is a contiguous one (`string_body`, `chunk_body`), whose value is its bytes.
-/

namespace BitcoinNetwork.Http

/-! ### Methods -/

/-- Request methods, and the two tags of a message without a request line. -/
inductive Verb where
  | unknown
  | delete
  | get
  | head
  | post
  | put
  | connect
  | options
  | trace
  | copy
  | lock
  | mkcol
  | move
  | propfind
  | proppatch
  | search
  | unlock
  | bind
  | rebind
  | unbind
  | acl
  | report
  | mkactivity
  | checkout
  | merge
  | msearch
  | notify
  | subscribe
  | unsubscribe
  | patch
  | purge
  | mkcalendar
  | link
  | unlink
  | websocket
  | stream
  deriving DecidableEq, Repr

/-- `verbs`. -/
def verbs : List (Verb × Text) := [
  (.delete, ascii "DELETE"),
  (.get, ascii "GET"),
  (.head, ascii "HEAD"),
  (.post, ascii "POST"),
  (.put, ascii "PUT"),
  (.connect, ascii "CONNECT"),
  (.options, ascii "OPTIONS"),
  (.trace, ascii "TRACE"),
  (.copy, ascii "COPY"),
  (.lock, ascii "LOCK"),
  (.mkcol, ascii "MKCOL"),
  (.move, ascii "MOVE"),
  (.propfind, ascii "PROPFIND"),
  (.proppatch, ascii "PROPPATCH"),
  (.search, ascii "SEARCH"),
  (.unlock, ascii "UNLOCK"),
  (.bind, ascii "BIND"),
  (.rebind, ascii "REBIND"),
  (.unbind, ascii "UNBIND"),
  (.acl, ascii "ACL"),
  (.report, ascii "REPORT"),
  (.mkactivity, ascii "MKACTIVITY"),
  (.checkout, ascii "CHECKOUT"),
  (.merge, ascii "MERGE"),
  (.msearch, ascii "M-SEARCH"),
  (.notify, ascii "NOTIFY"),
  (.subscribe, ascii "SUBSCRIBE"),
  (.unsubscribe, ascii "UNSUBSCRIBE"),
  (.patch, ascii "PATCH"),
  (.purge, ascii "PURGE"),
  (.mkcalendar, ascii "MKCALENDAR"),
  (.link, ascii "LINK"),
  (.unlink, ascii "UNLINK")]

/-- `to_verb`: the verb of the method token (case sensitive), or unknown. -/
def toVerb (method : Text) : Verb :=
  match verbs.find? fun item => item.2 == method with
  | some item => item.1
  | none => .unknown

/-- `to_string`: the method token of the verb, empty for unknown, websocket and stream. -/
def Verb.toString (method : Verb) : Text :=
  match verbs.find? fun item => item.1 == method with
  | some item => item.2
  | none => []

theorem toVerb_nil : toVerb [] = .unknown := by decide

theorem toVerb_toString {method : Verb} (h : method.toString ≠ []) :
    toVerb method.toString = method := by
  revert h
  cases method <;> decide

theorem toString_toVerb {method : Text} (h : toVerb method ≠ .unknown) :
    (toVerb method).toString = method := by
  unfold toVerb at h ⊢
  split at h
  · rename_i item hitem
    have hstr : ∀ x ∈ verbs, x.1.toString = x.2 := by decide
    rw [hstr item (List.mem_of_find?_eq_some hitem)]
    simpa using List.find?_some hitem
  · exact absurd rfl h

/-! ### Status -/

/-- `statuses`, with the enumeration by its values. -/
def statuses : List (ℕ × Text) := [
  (100, ascii "Continue"),
  (101, ascii "Switching Protocols"),
  (102, ascii "Processing"),
  (103, ascii "Early Hints"),
  (200, ascii "OK"),
  (201, ascii "Created"),
  (202, ascii "Accepted"),
  (203, ascii "Non-Authoritative Information"),
  (204, ascii "No Content"),
  (205, ascii "Reset Content"),
  (206, ascii "Partial Content"),
  (207, ascii "Multi-Status"),
  (208, ascii "Already Reported"),
  (226, ascii "IM Used"),
  (300, ascii "Multiple Choices"),
  (301, ascii "Moved Permanently"),
  (302, ascii "Found"),
  (303, ascii "See Other"),
  (304, ascii "Not Modified"),
  (305, ascii "Use Proxy"),
  (307, ascii "Temporary Redirect"),
  (308, ascii "Permanent Redirect"),
  (400, ascii "Bad Request"),
  (401, ascii "Unauthorized"),
  (402, ascii "Payment Required"),
  (403, ascii "Forbidden"),
  (404, ascii "Not Found"),
  (405, ascii "Method Not Allowed"),
  (406, ascii "Not Acceptable"),
  (407, ascii "Proxy Authentication Required"),
  (408, ascii "Request Timeout"),
  (409, ascii "Conflict"),
  (410, ascii "Gone"),
  (411, ascii "Length Required"),
  (412, ascii "Precondition Failed"),
  (413, ascii "Payload Too Large"),
  (414, ascii "URI Too Long"),
  (415, ascii "Unsupported Media Type"),
  (416, ascii "Range Not Satisfiable"),
  (417, ascii "Expectation Failed"),
  (421, ascii "Misdirected Request"),
  (422, ascii "Unprocessable Entity"),
  (423, ascii "Locked"),
  (424, ascii "Failed Dependency"),
  (425, ascii "Too Early"),
  (426, ascii "Upgrade Required"),
  (428, ascii "Precondition Required"),
  (429, ascii "Too Many Requests"),
  (431, ascii "Request Header Fields Too Large"),
  (444, ascii "Connection Closed Without Response"),
  (451, ascii "Unavailable For Legal Reasons"),
  (499, ascii "Client Closed Request"),
  (500, ascii "Internal Server Error"),
  (501, ascii "Not Implemented"),
  (502, ascii "Bad Gateway"),
  (503, ascii "Service Unavailable"),
  (504, ascii "Gateway Timeout"),
  (505, ascii "HTTP Version Not Supported"),
  (506, ascii "Variant Also Negotiates"),
  (507, ascii "Insufficient Storage"),
  (508, ascii "Loop Detected"),
  (510, ascii "Not Extended"),
  (511, ascii "Network Authentication Required"),
  (599, ascii "Network Connect Timeout Error")]

/-- `status_string(to_status(code))`. -/
def statusString (code : ℕ) : Text :=
  match statuses.find? fun item => item.1 == code with
  | some item => item.2
  | none => ascii "<unknown-status>"

/-! ### Start lines -/

/-- The method and target of a request. The method text is kept only for a
method that is not enumerated. -/
structure RequestLine where
  method : Verb
  methodText : Text
  target : Text
  known : method ≠ .unknown → methodText = []
  unlisted : toVerb methodText = .unknown
  deriving DecidableEq

/-- `method_string(value)`. -/
def RequestLine.ofMethodString (value target : Text) : RequestLine where
  method := toVerb value
  methodText := if toVerb value = .unknown then value else []
  target := target
  known h := if_neg h
  unlisted := by
    split
    · assumption
    · exact toVerb_nil

/-- `method(value)`. -/
def RequestLine.ofMethod (value : Verb) (target : Text) : RequestLine where
  method := value
  methodText := []
  target := target
  known _ := rfl
  unlisted := toVerb_nil

/-- `method_string()`. -/
def RequestLine.methodString (line : RequestLine) : Text :=
  if line.method = .unknown then line.methodText else line.method.toString

theorem RequestLine.methodString_ofMethodString (value target : Text) :
    (ofMethodString value target).methodString = value := by
  simp only [methodString, ofMethodString]
  split
  · rfl
  · rename_i h
    exact toString_toVerb h

/-- A start line is determined by what its accessors report, if it has a method token. -/
theorem RequestLine.ofMethodString_methodString (line : RequestLine)
    (h : line.methodString ≠ []) : ofMethodString line.methodString line.target = line := by
  obtain ⟨method, text, target, known, unlisted⟩ := line
  simp only [ofMethodString, methodString] at h ⊢
  by_cases hm : method = .unknown
  · subst hm
    simp only [reduceIte] at h ⊢
    simp only [unlisted, reduceIte]
  · simp only [hm, reduceIte] at h ⊢
    have ht := known hm
    subst ht
    simp only [toVerb_toString h, hm, reduceIte]

/-- The status of a response, with its standard phrase when no reason is set. -/
structure StatusLine where
  code : ℕ
  reasonText : Text
  deriving DecidableEq, Repr

/-- `reason()`. -/
def StatusLine.reason (line : StatusLine) : Text :=
  if line.reasonText = [] then statusString line.code else line.reasonText

/-- `bodiless()`. -/
def StatusLine.bodiless (line : StatusLine) : Bool :=
  (100 ≤ line.code && line.code < 200) || line.code == 204 || line.code == 304

/-- The start line of `header<IsRequest>`. -/
abbrev StartLine : Bool → Type
  | true => RequestLine
  | false => StatusLine

instance : (isRequest : Bool) → DecidableEq (StartLine isRequest)
  | true => inferInstanceAs (DecidableEq RequestLine)
  | false => inferInstanceAs (DecidableEq StatusLine)

/-! ### Headers -/

def version11 : ℕ := 11
def version10 : ℕ := 10

/-- `header<IsRequest>`, the version being major * 10 + minor. -/
structure Header (isRequest : Bool) where
  version : ℕ
  start : StartLine isRequest
  fields : Fields
  deriving DecidableEq

/-- `header()`. -/
def Header.new : (isRequest : Bool) → Header isRequest
  | true => ⟨version11, RequestLine.ofMethod .unknown [], Fields.empty⟩
  | false => ⟨version11, ⟨200, []⟩, Fields.empty⟩

/-- `bodiless()` of a response, which a request does not have. -/
def Header.bodiless : {isRequest : Bool} → Header isRequest → Bool
  | true, _ => false
  | false, header => StatusLine.bodiless header.start

/-- `message<IsRequest, contiguous_body>`. -/
structure Message (isRequest : Bool) where
  header : Header isRequest
  body : Text
  deriving DecidableEq

def Message.new (isRequest : Bool) : Message isRequest := ⟨Header.new isRequest, []⟩

/-! ### Transfer coding -/

section split
variable (split : Text → List Text)

/-- `filter_tokens`: the comma separated list without the matching tokens. -/
def filterTokens (list : Text) (matching : Text → Bool) : Text :=
  (split list).foldl (fun out token =>
    if token.isEmpty || matching token then out
    else if out.isEmpty then token else out ++ ascii ", " ++ token) []

/-- `chunked_token`. -/
def chunkedToken : Text := ascii "chunked"

/-- `chunked()`: the last transfer coding is chunked. -/
def Header.chunked {isRequest : Bool} (header : Header isRequest) : Bool :=
  match (split (header.fields.get .transferEncoding)).getLast? with
  | some coding => iequals coding chunkedToken
  | none => false

/-- `chunked(value)`: set (append) or clear chunked, setting removes content-length. -/
def Header.setChunked {isRequest : Bool} (header : Header isRequest) (value : Bool) :
    Header isRequest :=
  let list := header.fields.get .transferEncoding
  let out := filterTokens split list fun item => iequals item chunkedToken
  let fields := if value then header.fields.eraseField .contentLength else header.fields
  let out := if !value then out
    else if out.isEmpty then chunkedToken else out ++ ascii ", " ++ chunkedToken
  if out.isEmpty then { header with fields := fields.eraseField .transferEncoding }
  else { header with fields := fields.setField .transferEncoding out }

/-- `prepare_payload()`: chunked for http 1.1, closing the connection for 1.0,
and neither for a response status that precludes a body. -/
def Message.preparePayload {isRequest : Bool} (message : Message isRequest) :
    Message isRequest :=
  if message.header.bodiless then
    let header := message.header.setChunked split false
    { message with
      header := { header with fields := header.fields.eraseField .contentLength } }
  else
    { message with
      header := message.header.setChunked split (version11 ≤ message.header.version) }

end split
end BitcoinNetwork.Http
