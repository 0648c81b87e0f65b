import Zakuro.KeyedList

/-!
# HTTP messages as Beast keeps them

A message keeps its header fields in order, each with the name and the value it
came with. What the program calls on messages knows names through the table of
`boost::beast::http::field`: a name outside the table is `field::unknown`. A
string stands for a `std::string`, one character a byte.
-/

structure HeaderField where
  name : String
  value : String
  deriving DecidableEq, Repr

structure HttpRequest where
  /-- `method_string()` -/
  method : String
  target : String
  version : Nat
  fields : List HeaderField
  body : String
  deriving DecidableEq, Repr

structure HttpResponse where
  /-- `result_int()` -/
  status : Nat
  version : Nat
  fields : List HeaderField
  body : String
  deriving DecidableEq, Repr

namespace HttpResponse

/-- A response of this status has no body: 1xx, 204 or 304. -/
def bodiless (status : Nat) : Bool := status / 100 = 1 || status = 204 || status = 304

/-- `prepare_payload()` throws for a response that has a body though its status
allows none. -/
def Preparable (res : HttpResponse) : Prop := bodiless res.status = true → res.body = ""

instance : DecidablePred Preparable := fun _ => inferInstanceAs (Decidable (_ → _))

end HttpResponse

/-- A response as the reader leaves it: what follows the header of one without a
body is not part of it. -/
structure UpstreamResponse extends HttpResponse where
  preparable : toHttpResponse.Preparable
  deriving DecidableEq

theorem HttpResponse.unread_preparable : Preparable ⟨200, 11, [], ""⟩ := fun _ => rfl

/-- A response into which nothing has been read. -/
def UpstreamResponse.unread : UpstreamResponse := ⟨⟨200, 11, [], ""⟩, HttpResponse.unread_preparable⟩

/-- What a handler does wrong, or throws. -/
inductive SessionFault where
  /-- A null pointer is dereferenced. -/
  | nullDeref
  /-- `std::invalid_argument`, thrown by `prepare_payload()`. -/
  | invalidArgument
  deriving DecidableEq, Repr

/-- `boost::beast::http::field` -/
inductive FieldName where
  | unknown : FieldName
  | known : String → FieldName
  deriving DecidableEq, Repr

namespace FieldName

def host : FieldName := .known "Host"
def userAgent : FieldName := .known "User-Agent"
def connection : FieldName := .known "Connection"
def transferEncoding : FieldName := .known "Transfer-Encoding"
def contentLength : FieldName := .known "Content-Length"
def contentType : FieldName := .known "Content-Type"
def server : FieldName := .known "Server"

/-- The fields that tell where a body ends. -/
def framing : List FieldName := [contentLength, transferEncoding]

end FieldName

/-- A text without the case of its ASCII letters: `iequals(a, b)` compares these. -/
def folded (text : String) : List Char := text.toList.map Char.toLower

/-- The table of the known names. No two of them differ by case alone, and the
text that stands for `field::unknown` is none of them. -/
structure FieldTable where
  known : List String
  unknownText : String
  distinct : (known.map folded).Nodup
  unknown_new : folded unknownText ∉ known.map folded
  standard : ∀ text ∈ ["Host", "User-Agent", "Connection", "Transfer-Encoding", "Content-Length",
    "Content-Type", "Server"], text ∈ known

namespace FieldTable

variable (T : FieldTable)

/-- `string_to_field(name)`, and `name()` of a field of that name -/
def fieldName (name : String) : FieldName :=
  match T.known.find? fun text => folded text = folded name with
  | some text => .known text
  | none => .unknown

/-- `to_string(name)` -/
def text : FieldName → String
  | .unknown => T.unknownText
  | .known text => text

/-- `fields.set(name, value)` -/
def set (fields : List HeaderField) (name : FieldName) (value : String) : List HeaderField :=
  KeyedList.put (fun f => folded f.name) fields ⟨T.text name, value⟩

/-- The loop that copies the fields whose name is not excluded, each with `set`. -/
def copyFields (excluded : List FieldName) (source target : List HeaderField) :
    List HeaderField :=
  source.foldl (fun fields f =>
    if T.fieldName f.name ∉ excluded then T.set fields (T.fieldName f.name) f.value else fields)
    target

variable {T}

theorem fieldName_known {text : String} (h : text ∈ T.known) : T.fieldName text = .known text := by
  rw [fieldName, KeyedList.find?_of_nodup T.distinct h]

theorem fieldName_unknownText : T.fieldName T.unknownText = .unknown := by
  have hfind : T.known.find? (fun t => folded t = folded T.unknownText) = none := by
    rw [List.find?_eq_none]
    intro t ht he
    have he : folded t = folded T.unknownText := by simpa using he
    exact T.unknown_new (he ▸ List.mem_map_of_mem ht)
  rw [fieldName, hfind]

/-- The text of a name is a spelling of that name. -/
theorem fieldName_text (name : String) :
    T.fieldName (T.text (T.fieldName name)) = T.fieldName name := by
  cases h : T.known.find? fun text => folded text = folded name with
  | none =>
    have hn : T.fieldName name = .unknown := by rw [fieldName, h]
    rw [hn, text, fieldName_unknownText]
  | some t =>
    have hn : T.fieldName name = .known t := by rw [fieldName, h]
    rw [hn, text, fieldName_known (List.mem_of_find?_eq_some h)]

theorem fieldName_folded {a b : String} (h : folded a = folded b) :
    T.fieldName a = T.fieldName b := by
  rw [fieldName, fieldName, h]

theorem ofKey_fieldName (q : FieldName → Bool) :
    KeyedList.OfKey (fun f : HeaderField => folded f.name) (fun f => q (T.fieldName f.name)) := by
  intro x y h
  exact congrArg q (fieldName_folded h)

theorem filter_set {q : FieldName → Bool} {name : FieldName}
    (h : q (T.fieldName (T.text name)) = false) (fields : List HeaderField) (value : String) :
    (T.set fields name value).filter (fun f => q (T.fieldName f.name)) =
      fields.filter fun f => q (T.fieldName f.name) :=
  KeyedList.filter_put_of_not (ofKey_fieldName q) h

/-- A part of the table of Beast. -/
def sample : FieldTable where
  known := ["Host", "User-Agent", "Connection", "Transfer-Encoding", "Content-Length",
    "Content-Type", "Server", "Accept", "Set-Cookie"]
  unknownText := "<unknown-field>"
  distinct := by decide
  unknown_new := by decide
  standard := by decide

end FieldTable

/-- What the program uses of Beast. The laws are the documented ones: the calls
that recompute a field leave all others alone. -/
structure Beast extends FieldTable where
  /-- `method_string()` of a request that was made from `method()`, a verb of the enumeration -/
  methodText : String → String
  /-- `result()`, a status of the enumeration -/
  result : Nat → Nat
  /-- `keep_alive()`, from the version and the fields -/
  keepAlive : Nat → List HeaderField → Bool
  /-- `keep_alive(value)` -/
  setKeepAlive : Nat → Bool → List HeaderField → List HeaderField
  /-- The reader takes the header of the response to a request with a method, of 8 KiB at
  most, and gets the body that the header announces; after a `HEAD` there is none. -/
  takes : String → HttpResponse → Bool
  /-- The fields that `prepare_payload()` of a request leaves. -/
  prepareRequest : HttpRequest → List HeaderField
  /-- The fields that `prepare_payload()` of a response leaves. -/
  prepareResponse : HttpResponse → List HeaderField
  result_same : ∀ status, result status = status ∨ result status = 0
  setKeepAlive_other : ∀ version value fields,
    (setKeepAlive version value fields).filter (toFieldTable.fieldName ·.name ≠ .connection) =
      fields.filter (toFieldTable.fieldName ·.name ≠ .connection)
  prepareRequest_other : ∀ req,
    (prepareRequest req).filter (toFieldTable.fieldName ·.name ∉ FieldName.framing) =
      req.fields.filter (toFieldTable.fieldName ·.name ∉ FieldName.framing)
  prepareResponse_other : ∀ res,
    (prepareResponse res).filter (toFieldTable.fieldName ·.name ∉ FieldName.framing) =
      res.fields.filter (toFieldTable.fieldName ·.name ∉ FieldName.framing)

namespace Beast

variable (B : Beast)

/-- `prepare_payload()` of a request, which throws for a `TRACE` with a body. -/
def preparePayload (req : HttpRequest) : Except SessionFault HttpRequest :=
  if req.method = "TRACE" ∧ req.body ≠ "" then .error .invalidArgument
  else .ok { req with fields := B.prepareRequest req }

/-- `prepare_payload()` of a response. All responses of the program are `Preparable`. -/
def preparePayloadResponse (res : HttpResponse) : HttpResponse :=
  { res with fields := B.prepareResponse res }

/-- The default `body_limit` of the reader of a response. -/
def bodyLimit : Nat := 8 * 1024 * 1024

/-- What the reading of the response to a request with a method completes with. -/
def Reads (method : String) (upstream : UpstreamResponse) (result : Except String UpstreamResponse) : Prop :=
  if B.takes method upstream.toHttpResponse then
    result = if bodyLimit < upstream.body.length then .error "body limit exceeded" else .ok upstream
  else ∃ message, result = .error message

/-- A response with the fields that every answer of the program's own has. -/
def answer (status version : Nat) (contentType : String) (keepAlive : Bool) (body : String) :
    HttpResponse :=
  let fields := B.set (B.set [] .server "Zakuro") .contentType contentType
  B.preparePayloadResponse ⟨status, version, B.setKeepAlive version keepAlive fields, body⟩

variable {B}

theorem preparePayload_ok_iff {req prepared : HttpRequest} : B.preparePayload req = .ok prepared ↔
    (req.method = "TRACE" → req.body = "") ∧ prepared = { req with fields := B.prepareRequest req } := by
  rw [preparePayload]
  split
  next h =>
    refine iff_of_false (fun heq => by cases heq) fun hprepared => ?_
    exact h.2 (hprepared.1 h.1)
  next h =>
    rw [Except.ok.injEq, eq_comm]
    exact (and_iff_right fun htrace => by_contra fun hbody => h ⟨htrace, hbody⟩).symm

theorem preparePayload_error {req : HttpRequest} {f : SessionFault}
    (h : B.preparePayload req = .error f) : f = .invalidArgument := by
  rw [preparePayload] at h
  split at h
  · exact (Except.error.inj h).symm
  · cases h

theorem answer_preparable {status version : Nat} {contentType body : String} {keepAlive : Bool}
    (h : HttpResponse.bodiless status = false) :
    (B.answer status version contentType keepAlive body).Preparable := by
  intro hbodiless
  have hstatus : HttpResponse.bodiless status = true := hbodiless
  rw [h] at hstatus
  cases hstatus

/-- Beast with a part of its tables, for messages of version 1.1 without chunks. -/
def sample : Beast where
  toFieldTable := FieldTable.sample
  methodText method := if method ∈ ["GET", "HEAD", "POST", "PUT", "DELETE", "TRACE"] then method else ""
  result status := if status ∈ [200, 204, 404, 502] then status else 0
  keepAlive _ fields :=
    fields.all fun f => FieldTable.sample.fieldName f.name ≠ .connection || f.value ≠ "close"
  setKeepAlive _ value fields :=
    if value then fields.filter (FieldTable.sample.fieldName ·.name ≠ .connection)
    else FieldTable.sample.set fields .connection "close"
  takes method res :=
    method ≠ "HEAD" || res.fields.all (FieldTable.sample.fieldName ·.name ∉ FieldName.framing)
  prepareRequest req :=
    if req.body = "" then req.fields
    else FieldTable.sample.set req.fields .contentLength (toString req.body.length)
  prepareResponse res :=
    FieldTable.sample.set res.fields .contentLength (toString res.body.length)
  result_same status := by
    split
    · exact .inl rfl
    · exact .inr rfl
  setKeepAlive_other version value fields := by
    split
    · simp [List.filter_filter]
    · exact FieldTable.filter_set (q := (decide <| · ≠ .connection)) (by decide) fields _
  prepareRequest_other req := by
    split
    · rfl
    · exact FieldTable.filter_set (q := (decide <| · ∉ FieldName.framing)) (by decide) req.fields _
  prepareResponse_other res :=
    FieldTable.filter_set (q := (decide <| · ∉ FieldName.framing)) (by decide) res.fields _

end Beast
