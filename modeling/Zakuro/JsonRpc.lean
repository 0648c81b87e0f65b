import Zakuro.Json
import Zakuro.HttpSession

/-!
# JSON-RPC

`JsonRpcHandler` and the HTTP handler that calls it. The texts that the build
provides are given as `Versions`, and the parser and the serializer of
`boost::json` as `BoostJson`.
-/

/-- A JSON object, its members in the order in which they were added. -/
abbrev JsonObject := List (String × Json)

namespace Json

def isNull : Json → Bool
  | .null => true
  | _ => false

def isString : Json → Bool
  | .string _ => true
  | _ => false

end Json

/-- What the build and the SDK say about versions. -/
structure Versions where
  /-- `ZAKURO_VERSION` -/
  zakuro : String
  /-- `sora::Version::GetClientName()` -/
  clientName : String
  /-- `WEBRTC_BUILD_VERSION`, or the name that stands for it -/
  webrtc : String
  /-- `BOOST_VERSION` -/
  boost : Nat

namespace Versions

/-- `text.find(needle, start)` -/
def find (text needle : List Char) (start : Nat) : Option Nat :=
  (List.range (text.length + 1)).find? fun i => start ≤ i && needle.isPrefixOf (text.drop i)

def getSoraCppSdkVersion (V : Versions) : String :=
  let fullVersion := V.clientName.toList
  match find fullVersion "SDK ".toList 0 with
  | none => V.clientName
  | some start =>
    match find fullVersion " ".toList (start + 4) with
    | none => V.clientName
    | some stop => String.ofList ((fullVersion.drop (start + 4)).take (stop - (start + 4)))

example : (Versions.mk "" "Sora C++ SDK 2025.3.1 (7e86e6e5)" "" 0).getSoraCppSdkVersion = "2025.3.1" := by
  decide

def boostText (V : Versions) : String :=
  toString (V.boost / 100000) ++ "." ++ toString (V.boost / 100 % 1000) ++ "." ++ toString (V.boost % 100)

end Versions

namespace JsonRpcHandler

/-! ## The handler -/

/-- What `Process` catches: its own error type, and `std::exception`. -/
inductive Thrown where
  | jsonRpcError (code : Int) (message data : String)
  | exception (what : String)
  deriving DecidableEq, Repr

def createErrorResponse (id : Json) (code : Int) (message data : String) : JsonObject :=
  let error : JsonObject :=
    [("code", .int64 code), ("message", .string message)] ++
      if data.isEmpty then [] else [("data", .string data)]
  [("jsonrpc", .string "2.0"), ("id", id), ("error", .object error)]

def createSuccessResponse (id result : Json) : JsonObject :=
  [("jsonrpc", .string "2.0"), ("id", id), ("result", result)]

def handleVersionMethod (V : Versions) : Json :=
  .object [("zakuro", .string V.zakuro), ("sora_cpp_sdk", .string V.getSoraCppSdkVersion),
    ("libwebrtc", .string V.webrtc), ("boost", .string V.boostText)]

/-- `obj.contains(key)` -/
def contains (obj : JsonObject) (key : String) : Bool := (obj.lookup key).isSome

/-- `obj.at(key)` -/
def member (obj : JsonObject) (key : String) : Except Thrown Json :=
  match obj.lookup key with
  | some value => .ok value
  | none => .error (.exception "out of range")

/-- `value.as_string()` -/
def asString : Json → Except Thrown String
  | .string text => .ok text
  | _ => .error (.exception "not a string")

/-- The check of the `jsonrpc` field. -/
def badVersion (obj : JsonObject) : Except Thrown Bool := do
  if !contains obj "jsonrpc" then return true
  if !(← member obj "jsonrpc").isString then return true
  return (← asString (← member obj "jsonrpc")) != "2.0"

/-- The check of the `method` field. -/
def badMethod (obj : JsonObject) : Except Thrown Bool := do
  if !contains obj "method" then return true
  return !(← member obj "method").isString

/-- What `Process` does inside its `try`. -/
def handle (V : Versions) (obj : JsonObject) (isNotification : Bool) (id : Json) :
    Except Thrown (Option JsonObject) := do
  if ← badVersion obj then
    if isNotification then return none
    return some (createErrorResponse id (-32600) "Invalid Request" "Missing or invalid jsonrpc field")
  if ← badMethod obj then
    if isNotification then return none
    return some (createErrorResponse id (-32600) "Invalid Request" "Missing or invalid method field")
  let method ← asString (← member obj "method")
  if method = "GetVersion" then
    if isNotification then return none
    return some (createSuccessResponse id (handleVersionMethod V))
  if isNotification then return none
  return some (createErrorResponse id (-32601) "Method not found" ("Unknown method: " ++ method))

/-- The handlers behind the `try`. -/
def caught (isNotification : Bool) (id : Json) : Except Thrown (Option JsonObject) → Option JsonObject
  | .ok response => response
  | .error (.jsonRpcError code message data) =>
    if isNotification then none else some (createErrorResponse id code message data)
  | .error (.exception what) =>
    if isNotification then none else some (createErrorResponse id (-32603) "Internal error" what)

def process (V : Versions) : Json → Option JsonObject
  | .object obj =>
    match obj.lookup "id" with
    | none => caught true .null (handle V obj true .null)
    | some id =>
      if !id.isNull && !id.isNumber && !id.isString then
        some (createErrorResponse .null (-32600) "Invalid Request" "id must be a number, string, or null")
      else caught false id (handle V obj false id)
  | _ => some (createErrorResponse .null (-32600) "Invalid Request" "Request must be a JSON object")

end JsonRpcHandler

/-- `boost::json::parse`, with the message of its error code, and `serialize`. -/
structure BoostJson where
  parse : String → Except String Json
  serialize : JsonObject → String

namespace HttpSession

open JsonRpcHandler

/-- `HandleJsonRpcRequest`. Nothing that it calls throws, so its own handlers
never run. -/
def handleJsonRpcRequest (B : Beast) (J : BoostJson) (V : Versions) (req : HttpRequest) : HttpResponse :=
  let answer status body :=
    B.answer status req.version "application/json" (B.keepAlive req.version req.fields) body
  match J.parse req.body with
  | .error message => answer 200 (J.serialize (createErrorResponse .null (-32700) "Parse error" message))
  | .ok request =>
    match process V request with
    | none => answer 204 ""
    | some response => answer 200 (J.serialize response)

/-- `prepare_payload()` does not throw either. -/
theorem handleJsonRpcRequest_preparable (B : Beast) (J : BoostJson) (V : Versions) (req : HttpRequest) :
    (handleJsonRpcRequest B J V req).Preparable := by
  rw [handleJsonRpcRequest]
  dsimp only
  split
  · exact Beast.answer_preparable (by decide)
  · split
    · exact fun _ => rfl
    · exact Beast.answer_preparable (by decide)

end HttpSession

namespace JsonRpcHandler

/-! ## The checks -/

/-- The checks of a request, in their order. -/
inductive Check where
  | object
  | id
  | jsonrpc
  | method
  deriving DecidableEq, Repr

/-- An `id` that a response may repeat. -/
def IdKind (id : Json) : Prop := id.isNull = true ∨ id.isNumber = true ∨ id.isString = true

instance : DecidablePred IdKind := fun id =>
  inferInstanceAs (Decidable (id.isNull = true ∨ id.isNumber = true ∨ id.isString = true))

namespace Check

def rank : Check → Nat
  | object => 0
  | id => 1
  | jsonrpc => 2
  | method => 3

def Passes (request : Json) : Check → Prop
  | object => ∃ obj, request = .object obj
  | id => ∀ value, request.at? "id" = some value → IdKind value
  | jsonrpc => request.at? "jsonrpc" = some (.string "2.0")
  | method => ∃ name, request.at? "method" = some (.string name)

/-- The `data` of the error when the check fails. -/
def data : Check → String
  | object => "Request must be a JSON object"
  | id => "id must be a number, string, or null"
  | jsonrpc => "Missing or invalid jsonrpc field"
  | method => "Missing or invalid method field"

/-- The check fails, and those before it do not. -/
def FirstFailed (request : Json) (c : Check) : Prop :=
  ¬ c.Passes request ∧ ∀ d : Check, d.rank < c.rank → d.Passes request

end Check

theorem badVersion_eq (obj : JsonObject) : ∃ b, badVersion obj = .ok b ∧
    (b = false ↔ Check.jsonrpc.Passes (.object obj)) := by
  rw [badVersion, contains, member, Check.Passes, Json.at?]
  cases h : obj.lookup "jsonrpc" with
  | none => exact ⟨true, rfl, by simp⟩
  | some value =>
    cases value with
    | string text => exact ⟨text != "2.0", rfl, by simp⟩
    | _ => exact ⟨true, rfl, by simp⟩

theorem badMethod_eq (obj : JsonObject) : ∃ b, badMethod obj = .ok b ∧
    (b = false ↔ Check.method.Passes (.object obj)) := by
  rw [badMethod, contains, member, Check.Passes, Json.at?]
  cases h : obj.lookup "method" with
  | none => exact ⟨true, rfl, by simp⟩
  | some value =>
    cases value with
    | string text => exact ⟨false, rfl, by simp⟩
    | _ => exact ⟨true, rfl, by simp⟩

theorem member_of_at {obj : JsonObject} {key : String} {value : Json}
    (h : (Json.object obj).at? key = some value) : member obj key = .ok value := by
  rw [Json.at?] at h
  rw [member, h]

/-! ## The outcomes of `Process` -/

/-- What `Process` may answer to a request that is no notification. -/
inductive Outcome (V : Versions) (request : Json) (id : Json) : JsonObject → Prop where
  | version : Check.FirstFailed request .jsonrpc →
    Outcome V request id (createErrorResponse id (-32600) "Invalid Request" Check.jsonrpc.data)
  | method : Check.FirstFailed request .method →
    Outcome V request id (createErrorResponse id (-32600) "Invalid Request" Check.method.data)
  | result : (∀ c : Check, c.Passes request) → request.at? "method" = some (.string "GetVersion") →
    Outcome V request id (createSuccessResponse id (handleVersionMethod V))
  | unknown (name : String) : (∀ c : Check, c.Passes request) →
    request.at? "method" = some (.string name) → name ≠ "GetVersion" →
    Outcome V request id (createErrorResponse id (-32601) "Method not found" ("Unknown method: " ++ name))

/-- `handle`, check by check. For a notification it goes the same way, and says
nothing. -/
theorem handle_cases (V : Versions) (obj : JsonObject) (isNotification : Bool) (id : Json)
    (hid : Check.id.Passes (.object obj)) :
    ∃ response, handle V obj isNotification id = .ok (if isNotification then none else some response) ∧
      Outcome V (.object obj) id response := by
  have hobject : Check.object.Passes (.object obj) := ⟨obj, rfl⟩
  obtain ⟨b, hb, hversion⟩ := badVersion_eq obj
  obtain ⟨m, hm, hmethod⟩ := badMethod_eq obj
  rw [handle, hb, hm]
  cases b with
  | true =>
    have hbad : ¬ Check.jsonrpc.Passes (.object obj) := fun h => Bool.noConfusion (hversion.mpr h)
    refine ⟨_, by cases isNotification <;> rfl, .version ⟨hbad, fun d hd => ?_⟩⟩
    cases d with
    | object => exact hobject
    | id => exact hid
    | jsonrpc => exact absurd hd (by decide)
    | method => exact absurd hd (by decide)
  | false =>
    have hjsonrpc := hversion.mp rfl
    cases m with
    | true =>
      have hbad : ¬ Check.method.Passes (.object obj) := fun h => Bool.noConfusion (hmethod.mpr h)
      refine ⟨_, by cases isNotification <;> rfl, .method ⟨hbad, fun d hd => ?_⟩⟩
      cases d with
      | object => exact hobject
      | id => exact hid
      | jsonrpc => exact hjsonrpc
      | method => exact absurd hd (by decide)
    | false =>
      obtain ⟨name, hname⟩ := hmethod.mp rfl
      have hpasses : ∀ c : Check, c.Passes (.object obj) := by
        intro c
        cases c with
        | object => exact hobject
        | id => exact hid
        | jsonrpc => exact hjsonrpc
        | method => exact ⟨name, hname⟩
      rw [member_of_at hname]
      by_cases hget : name = "GetVersion"
      · subst hget
        exact ⟨_, by cases isNotification <;> rfl, .result hpasses hname⟩
      · refine ⟨_, ?_, .unknown name hpasses hname hget⟩
        simp only [asString, bind, Except.bind, hget]
        cases isNotification <;> rfl

/-- Nothing that `Process` does for a notification is answered. -/
theorem process_notification (V : Versions) {obj : JsonObject} (h : obj.lookup "id" = none) :
    process V (.object obj) = none := by
  have hid : Check.id.Passes (.object obj) := by
    intro value hvalue
    rw [Json.at?, h] at hvalue
    cases hvalue
  obtain ⟨response, hhandle, -⟩ := handle_cases V obj true .null hid
  simp only [process, h, hhandle]
  rfl

theorem process_badId (V : Versions) {obj : JsonObject} {id : Json} (h : obj.lookup "id" = some id)
    (hkind : ¬ IdKind id) : process V (.object obj) =
      some (createErrorResponse .null (-32600) "Invalid Request" Check.id.data) := by
  have hcheck : (!id.isNull && !id.isNumber && !id.isString) = true := by
    simpa [IdKind, not_or, and_assoc] using hkind
  simp only [process, h, hcheck, if_true]
  rfl

theorem process_outcome (V : Versions) {obj : JsonObject} {id : Json} (h : obj.lookup "id" = some id)
    (hkind : IdKind id) : ∃ response, process V (.object obj) = some response ∧
      Outcome V (.object obj) id response := by
  have hid : Check.id.Passes (.object obj) := by
    intro value hvalue
    obtain rfl := Option.some.inj (h.symm.trans hvalue)
    exact hkind
  have hcheck : (!id.isNull && !id.isNumber && !id.isString) = false := by
    rcases hkind with hkind | hkind | hkind <;> simp [hkind]
  obtain ⟨response, hhandle, houtcome⟩ := handle_cases V obj false id hid
  refine ⟨response, ?_, houtcome⟩
  simp only [process, h, hcheck, hhandle]
  rfl

/-! ## The law -/

/-- An object without an `id`. -/
def Notification (parsed : Except String Json) : Prop :=
  ∃ obj, parsed = .ok (.object obj) ∧ obj.lookup "id" = none

/-- The `id` of the request where a response may repeat it, else null. -/
def requestId : Except String Json → Json
  | .ok (.object obj) =>
    match obj.lookup "id" with
    | some id => if IdKind id then id else .null
    | none => .null
  | _ => .null

def error? (response : JsonObject) : Option JsonObject :=
  match response.lookup "error" with
  | some (.object error) => some error
  | _ => none

/-- The code of the error, if the response has one. -/
def errorCode (response : JsonObject) : Option Int :=
  match (error? response).bind (·.lookup "code") with
  | some (.int64 code) => some code
  | _ => none

/-- What a response says of the request that was parsed. -/
structure Law (parsed : Except String Json) (response : JsonObject) : Prop where
  jsonrpc : response.lookup "jsonrpc" = some (.string "2.0")
  one : Xor ((response.lookup "result").isSome = true) ((error? response).isSome = true)
  id : response.lookup "id" = some (requestId parsed)
  parseError : errorCode response = some (-32700) ↔ ∃ message, parsed = .error message
  invalidRequest : errorCode response = some (-32600) ↔ ∃ v, parsed = .ok v ∧ ∃ c : Check, ¬ c.Passes v
  checkOrder : ∀ v (c : Check), parsed = .ok v → c.FirstFailed v →
    (error? response).bind (·.lookup "data") = some (.string c.data)
  methodNotFound : errorCode response = some (-32601) ↔ ∃ v name, parsed = .ok v ∧
    (∀ c : Check, c.Passes v) ∧ v.at? "method" = some (.string name) ∧ name ≠ "GetVersion"
  result : (response.lookup "result").isSome = true ↔ ∃ v, parsed = .ok v ∧
    (∀ c : Check, c.Passes v) ∧ v.at? "method" = some (.string "GetVersion")

theorem errorCode_createErrorResponse (id : Json) (code : Int) (message data : String) :
    errorCode (createErrorResponse id code message data) = some code := rfl

/-- The law for an error response, from what its code stands for. -/
theorem law_error {parsed : Except String Json} {code : Int} {message data : String}
    (hparse : code = -32700 ↔ ∃ message, parsed = .error message)
    (hinvalid : code = -32600 ↔ ∃ v, parsed = .ok v ∧ ∃ c : Check, ¬ c.Passes v)
    (horder : ∀ v (c : Check), parsed = .ok v → c.FirstFailed v → data = c.data)
    (hunknown : code = -32601 ↔ ∃ v name, parsed = .ok v ∧ (∀ c : Check, c.Passes v) ∧
      v.at? "method" = some (.string name) ∧ name ≠ "GetVersion")
    (hresult : ¬ ∃ v, parsed = .ok v ∧ (∀ c : Check, c.Passes v) ∧
      v.at? "method" = some (.string "GetVersion")) :
    Law parsed (createErrorResponse (requestId parsed) code message data) where
  jsonrpc := rfl
  one := .inr ⟨rfl, Bool.noConfusion⟩
  id := rfl
  parseError := by rw [errorCode_createErrorResponse, Option.some.injEq, hparse]
  invalidRequest := by rw [errorCode_createErrorResponse, Option.some.injEq, hinvalid]
  checkOrder := by
    intro v c hv hc
    rw [horder v c hv hc]
    cases c <;> rfl
  methodNotFound := by rw [errorCode_createErrorResponse, Option.some.injEq, hunknown]
  result := iff_of_false Bool.noConfusion hresult

theorem exists_ok_iff {v : Json} {P : Json → Prop} :
    (∃ u, (Except.ok v : Except String Json) = .ok u ∧ P u) ↔ P v := by simp

/-- A request that fails a check. -/
theorem law_invalid {v : Json} {c : Check} (hc : c.FirstFailed v) (message : String) :
    Law (.ok v) (createErrorResponse (requestId (.ok v)) (-32600) message c.data) := by
  have hall : ¬ ∀ d : Check, d.Passes v := fun hall => hc.1 (hall c)
  refine law_error (by simp) ?_ ?_ (iff_of_false (by decide) ?_) ?_
  · exact iff_of_true rfl (exists_ok_iff.mpr ⟨c, hc.1⟩)
  · intro u d hu hd
    obtain rfl := Except.ok.inj hu
    -- two checks that fail first have the same rank
    have hrank : c.rank = d.rank := by
      rcases Nat.lt_trichotomy c.rank d.rank with hlt | heq | hlt
      · exact absurd (hd.2 c hlt) hc.1
      · exact heq
      · exact absurd (hc.2 d hlt) hd.1
    cases c <;> cases d <;> first | rfl | cases hrank
  · rintro ⟨u, name, hu, hpasses, -⟩
    obtain rfl := Except.ok.inj hu
    exact hall hpasses
  · rw [exists_ok_iff]
    exact fun hpasses => hall hpasses.1

section Passed

variable {v : Json} (hpasses : ∀ c : Check, c.Passes v)
include hpasses

theorem not_failed : ¬ ∃ u, (Except.ok v : Except String Json) = .ok u ∧ ∃ c : Check, ¬ c.Passes u := by
  rw [exists_ok_iff]
  rintro ⟨c, hc⟩
  exact hc (hpasses c)

theorem not_firstFailed {u : Json} {c : Check} (hu : (Except.ok v : Except String Json) = .ok u) :
    ¬ c.FirstFailed u := fun hc => not_failed hpasses ⟨u, hu, c, hc.1⟩

/-- A request that passes all checks and asks for the version. -/
theorem law_result (V : Versions) (hname : v.at? "method" = some (.string "GetVersion")) :
    Law (.ok v) (createSuccessResponse (requestId (.ok v)) (handleVersionMethod V)) where
  jsonrpc := rfl
  one := .inl ⟨rfl, Bool.noConfusion⟩
  id := rfl
  parseError := iff_of_false nofun (by simp)
  invalidRequest := iff_of_false nofun (not_failed hpasses)
  checkOrder _ _ hu hc := absurd hc (not_firstFailed hpasses hu)
  methodNotFound := by
    refine iff_of_false nofun ?_
    rintro ⟨u, name, hu, -, hname', hne⟩
    obtain rfl := Except.ok.inj hu
    exact hne (Json.string.inj (Option.some.inj (hname'.symm.trans hname)))
  result := iff_of_true rfl (exists_ok_iff.mpr ⟨hpasses, hname⟩)

/-- A request that passes all checks and asks for something else. -/
theorem law_unknown {name : String} (hname : v.at? "method" = some (.string name))
    (hne : name ≠ "GetVersion") (message data : String) :
    Law (.ok v) (createErrorResponse (requestId (.ok v)) (-32601) message data) := by
  refine law_error (by simp) (iff_of_false (by decide) (not_failed hpasses)) ?_ ?_ ?_
  · exact fun u c hu hc => absurd hc (not_firstFailed hpasses hu)
  · exact iff_of_true rfl ⟨v, name, rfl, hpasses, hname, hne⟩
  · rw [exists_ok_iff]
    rintro ⟨-, hname'⟩
    exact hne (Json.string.inj (Option.some.inj (hname.symm.trans hname')))

end Passed

theorem law_outcome {V : Versions} {v : Json} {response : JsonObject}
    (h : Outcome V v (requestId (.ok v)) response) : Law (.ok v) response := by
  cases h with
  | version hc => exact law_invalid hc _
  | method hc => exact law_invalid hc _
  | result hpasses hname => exact law_result hpasses V hname
  | unknown name hpasses hname hne => exact law_unknown hpasses hname hne _ _

/-- `Process` is silent on notifications, and answers all other values by the law. -/
theorem process_law (V : Versions) (v : Json) (h : ¬ Notification (.ok v)) :
    ∃ response, process V v = some response ∧ Law (.ok v) response := by
  have hvalue : (∀ obj, v ≠ .object obj) → process V v =
      some (createErrorResponse .null (-32600) "Invalid Request" Check.object.data) ∧
        requestId (.ok v) = .null := by
    intro hv
    cases v with
    | object obj => exact absurd rfl (hv obj)
    | _ => exact ⟨rfl, rfl⟩
  by_cases hv : ∃ obj, v = .object obj
  · obtain ⟨obj, rfl⟩ := hv
    cases hid : obj.lookup "id" with
    | none => exact absurd ⟨obj, rfl, hid⟩ h
    | some id =>
      by_cases hkind : IdKind id
      · have hrequest : requestId (.ok (.object obj)) = id := by simp [requestId, hid, hkind]
        obtain ⟨response, hprocess, houtcome⟩ := process_outcome V hid hkind
        rw [← hrequest] at houtcome
        exact ⟨response, hprocess, law_outcome houtcome⟩
      · have hrequest : requestId (.ok (.object obj)) = .null := by simp [requestId, hid, hkind]
        have hfirst : Check.id.FirstFailed (.object obj) := by
          refine ⟨fun hpass => hkind (hpass id hid), fun d hd => ?_⟩
          cases d with
          | object => exact ⟨obj, rfl⟩
          | _ => exact absurd hd (by decide)
        exact ⟨_, process_badId V hid hkind, hrequest ▸ law_invalid hfirst _⟩
  · obtain ⟨hprocess, hrequest⟩ := hvalue fun obj heq => hv ⟨obj, heq⟩
    have hfirst : Check.object.FirstFailed v := by
      refine ⟨hv, fun d hd => ?_⟩
      cases d <;> exact absurd hd (by decide)
    exact ⟨_, hprocess, hrequest ▸ law_invalid hfirst _⟩

/-- A body that does not parse. -/
theorem law_parseError (message : String) :
    Law (.error message) (createErrorResponse .null (-32700) "Parse error" message) :=
  law_error (iff_of_true rfl ⟨message, rfl⟩) (by simp) (by simp) (by simp)
    (by simp)

/-- Every request is answered once: a notification by an empty 204, any other
body by a 200 with a response that keeps to the law. -/
theorem rpc_response_law (B : Beast) (J : BoostJson) (V : Versions) (s : HttpSession) (req : HttpRequest)
    (request : Nat) (htarget : req.target = "/rpc") (hmethod : req.method = "POST") :
    ∃ res t, s.asyncHandleRequest B (HttpSession.handleJsonRpcRequest B J V) req request = .ok t ∧
      t.log = s.log ++ [.answered request res] ∧
      ((res.status = 204 ∧ res.body = "") ↔ Notification (J.parse req.body)) ∧
      (¬ Notification (J.parse req.body) → res.status = 200 ∧
        ∃ response, res.body = J.serialize response ∧ Law (J.parse req.body) response) := by
  refine ⟨HttpSession.handleJsonRpcRequest B J V req,
    s.onResponse request (HttpSession.handleJsonRpcRequest B J V req), ?_, rfl, ?_⟩
  · rw [HttpSession.asyncHandleRequest, if_neg (by simp [htarget]), if_pos ⟨htarget, hmethod⟩]
  · have hstatus : (200 : Nat) ≠ 204 := by decide
    rw [HttpSession.handleJsonRpcRequest]
    cases hparse : J.parse req.body with
    | error message =>
      have hno : ¬ Notification (.error message) := by
        rintro ⟨obj, heq, -⟩
        cases heq
      refine ⟨iff_of_false (fun hres => hstatus hres.1) hno, fun _ => ⟨rfl, _, rfl, ?_⟩⟩
      exact law_parseError message
    | ok v =>
      dsimp only
      by_cases hnote : Notification (.ok v)
      · obtain ⟨obj, heq, hid⟩ := hnote
        obtain rfl := Except.ok.inj heq
        rw [process_notification V hid]
        exact ⟨iff_of_true ⟨rfl, rfl⟩ ⟨obj, rfl, hid⟩, fun hno => absurd ⟨obj, rfl, hid⟩ hno⟩
      · obtain ⟨response, hprocess, hlaw⟩ := process_law V v hnote
        rw [hprocess]
        exact ⟨iff_of_false (fun hres => hstatus hres.1) hnote,
          fun _ => ⟨rfl, response, rfl, hlaw⟩⟩

def stopRequest : HttpRequest where
  method := "POST"
  target := "/rpc"
  version := 11
  fields := []
  body := "\x7b\"jsonrpc\":\"2.0\",\"method\":\"Stop\",\"id\":1\x7d"

/-- `boost::json` on the body of `stopRequest` and on the response to it. -/
def stopJson : BoostJson where
  parse body :=
    if body = stopRequest.body then
      .ok (.object [("jsonrpc", .string "2.0"), ("method", .string "Stop"), ("id", .int64 1)])
    else .error "syntax error"
  serialize _ :=
    "\x7b\"jsonrpc\":\"2.0\",\"id\":1,\"error\":\x7b\"code\":-32601,\"message\":\"Method not found\"," ++
      "\"data\":\"Unknown method: Stop\"\x7d\x7d"

def stopVersions : Versions := ⟨"2025.3.0", "Sora C++ SDK 2025.6.0 (7e86e6e5)", "143.7499.1.0", 108900⟩

theorem rpc_response_law_stop : ∃ res t, HttpSession.asyncHandleRequest Beast.sample
    (HttpSession.handleJsonRpcRequest Beast.sample stopJson stopVersions) { uiRemoteUrl := none }
      stopRequest 0 = .ok t ∧ t.log = [.answered 0 res] ∧ res.status = 200 ∧
      ∃ response, res.body = stopJson.serialize response ∧ errorCode response = some (-32601) := by
  obtain ⟨res, t, ht, hlog, -, hanswer⟩ := rpc_response_law Beast.sample stopJson stopVersions
    { uiRemoteUrl := none } stopRequest 0 rfl rfl
  have hno : ¬ Notification (stopJson.parse stopRequest.body) := by
    rintro ⟨obj, hobj, hid⟩
    obtain rfl := Json.object.inj (Except.ok.inj hobj)
    cases hid
  obtain ⟨hstatus, response, hbody, hlaw⟩ := hanswer hno
  refine ⟨res, t, ht, hlog, hstatus, response, hbody, hlaw.methodNotFound.mpr ⟨_, "Stop", rfl, ?_, rfl, by decide⟩⟩
  intro c
  cases c with
  | object => exact ⟨_, rfl⟩
  | id => exact fun value hvalue => Option.some.inj hvalue ▸ .inr (.inl rfl)
  | jsonrpc => rfl
  | method => exact ⟨"Stop", rfl⟩

end JsonRpcHandler
