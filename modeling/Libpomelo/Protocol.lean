import Libpomelo.Message
import Libpomelo.PbEncode
import Libpomelo.PbDecode

/-!
# Encoding and parsing messages (`protocol.c`, `msg-json.c`, `msg-pb.c`)

A client turns a route and a JSON message into the bytes of a message and back.
Both directions consult the tables the handshake installed (`Tables`):

* the route dictionary and its inverse, for the two-byte form of a route;
* the protobuf definitions of the client and of the server, for the body.

Printing and parsing JSON text is jansson's work. `dumps` and `loadb` stand for
`json_dumps(_, JSON_COMPACT)` and `json_loadb`; `none` is their `NULL`.

A C string is the list of its bytes before the terminating zero. jansson compares
keys with `strcmp`, so a lookup by text that is not UTF-8 finds nothing.
-/

namespace Libpomelo

/-- The part of `pc_client_t` that message coding reads. -/
structure Tables : Type where
  /-- `route_to_code` -/
  routeToCode : Option Json
  /-- `code_to_route` -/
  codeToRoute : Option Json
  /-- `server_protos` -/
  serverProtos : Option Json
  /-- `client_protos` -/
  clientProtos : Option Json

/-- The C string stored at the start of `bytes`. -/
def cString (bytes : Bytes) : Bytes := bytes.takeWhile (· ≠ 0)

/-- `json_object_get` with a C string as the key. -/
def jsonObjectGetText (j : Option Json) (key : Bytes) : Option Json :=
  match String.fromUTF8? ⟨key.toArray⟩ with
  | some key => jsonObjectGet j key
  | none => none

/-- Why a coding function did not produce a message. -/
inductive CodingStop : Type where
  /-- `NULL`, or a buffer of length `-1` -/
  | failed
  /-- undefined behaviour: `NULL` or foreign memory is accessed -/
  | fault
  deriving DecidableEq, Repr

/-! ## The route dictionary -/

/-- `sprintf("%u", (int)json_integer_value(value) & 0xff)`. -/
def dictionaryKey (value : Json) : String :=
  decimal (jsonIntegerValue (some value) % 0x100).toNat

/-- One turn of the loop over the dictionary in `pc__handshake_resp`. -/
def addRoute (table : Json) (kv : String × Json) : Json :=
  jsonObjectSet table (dictionaryKey kv.2) (jsonString (utf8Bytes kv.1))

/-- "setup route dictionary" of `pc__handshake_resp`, for the member `dict`. -/
def setupRouteDictionary (t : Tables) (dict : Json) : Tables :=
  { t with
    routeToCode := some dict
    codeToRoute := some ((jsonObjectIter dict).foldl addRoute (.obj [])) }

/-- `pc__resolve_dictionary`. -/
def resolveDictionary (t : Tables) (code : ℕ) : Option String :=
  jsonStringValue (jsonObjectGet t.codeToRoute (decimal (code &&& 0xff)))

/-! ## Encoding -/

section Jansson

variable (dumps : Json → Option Bytes) (loadb : Bytes → Option Json)

/-- `pc__json_encode`; `msg` may be `NULL`. -/
def jsonEncode (msg : Option Json) : Option Bytes := msg.bind dumps

/-- `pc__json_decode`. -/
def jsonDecode (data : Bytes) : Option Json := loadb data

/-- `PC_PB_EVAL_FACTOR`. -/
def pbEvalFactor : ℕ := 2

/-- `pc__pb_encode`. Only a failed allocation is reported; when the text could not be
printed or the protobuf encoder refused, the buffer has the length `0` it was cleared
to, which the caller takes for an empty body. -/
def pbEncodeBody (ms : List Bool) (gprotos pbDef : Json) (msg : Option Json) :
    Except CodingStop (Bytes × List Bool) :=
  match msg, jsonEncode dumps msg with
  | some msg, some text =>
    let (ok, ms) := mallocSize ms (text.length * pbEvalFactor)
    if ok then
      match pcPbEncode (text.length * pbEvalFactor) gprotos pbDef msg with
      | .ok written => .ok (written, ms)
      | .error (.refused, _) => .ok ([], ms)
      | .error (.nullString, _) | .error (.overrun, _) => .error .fault
    else .error .failed
  | _, _ => .ok ([], ms)

/-- "encode body" of `pc__default_msg_encode_cb`. -/
def encodeBody (t : Tables) (ms : List Bool) (route : Bytes) (msg : Option Json) :
    Except CodingStop (Bytes × List Bool) :=
  match t.clientProtos, jsonObjectGetText t.clientProtos route with
  | some gprotos, some pbDef => pbEncodeBody dumps ms gprotos pbDef msg
  | _, _ =>
    match jsonEncode dumps msg with
    | some text => .ok (text, ms)
    | none => .error .failed

/-- The `int` that `pc__default_msg_encode_cb` finds for a route, `0` for none. -/
def routeCode (t : Tables) (route : Bytes) : ℤ :=
  Int.bmod (jsonIntegerValue (jsonObjectGetText t.routeToCode route)) (2 ^ 32)

/-- The message type `pc__default_msg_encode_cb` picks. -/
def encodeType (reqId : ℕ) : MsgType := if reqId = 0 then .notify else .request

/-- The second half of `pc__default_msg_encode_cb`: the body with its header. -/
def encodeRouted (t : Tables) (ms : List Bool) (reqId : ℕ) (route body : Bytes) :
    Option MsgBuf × List Bool :=
  if 0 < routeCode t route then msgEncodeCode ms reqId (encodeType reqId) (routeCode t route) body
  else msgEncodeRoute ms reqId (encodeType reqId) route body

/-- `pc__default_msg_encode_cb`. -/
def defaultMsgEncodeCb (t : Tables) (ms : List Bool) (reqId : ℕ) (route : Bytes)
    (msg : Option Json) : Except CodingStop (MsgBuf × List Bool) := do
  let (body, ms) ← encodeBody dumps t ms route msg
  match encodeRouted t ms reqId route body with
  | (some buf, ms) => .ok (buf, ms)
  | (none, _) => .error .failed

/-! ## Parsing -/

/-- `pc_msg_t`. -/
structure Msg : Type where
  /-- `id` -/
  id : ℕ
  /-- `route`, `none` for `NULL` -/
  route : Option Bytes
  /-- `msg`, `none` for `NULL` -/
  msg : Option Json

/-- `pc__pb_decode`. -/
def pbDecodeBody (data : Bytes) (gprotos pbDef : Json) : Except CodingStop Json :=
  match pcPbDecode data gprotos pbDef (.obj []) with
  | .ok result => .ok result
  | .error .refused => .error .failed
  | .error _ => .error .fault

/-- The route of a parsed message: `msg->route`, the route used to find the protobuf
definition, and the rest of the supply. A response keeps `msg->route` at `NULL` and
borrows the route of the request with its id (`requestRoute`). -/
def parseRoute (t : Tables) (requestRoute : ℕ → Option Bytes) (ms : List Bool) (raw : RawMsg) :
    Except CodingStop (Option Bytes × Bytes × List Bool) :=
  if raw.type.hasRoute then do
    let origin ←
      (if raw.compressRoute then
        match resolveDictionary t raw.routeCode with
        | some route => .ok (utf8Bytes route)
        | none => .error .failed
       else
        match raw.routeStr with
        | some route => .ok (cString route)
        -- an empty route is `NULL`, and `strlen` reads it
        | none => .error .fault)
    let (ok, ms) := malloc ms
    if ok then .ok (some origin, origin, ms) else .error .failed
  else
    match requestRoute raw.id with
    | some route => .ok (none, route, ms)
    | none => .error .failed

/-- "body" of `pc__default_msg_parse_cb`. -/
def parseBody (t : Tables) (route body : Bytes) : Except CodingStop (Option Json) :=
  if body = [] then .ok none
  else
    match t.serverProtos, jsonObjectGetText t.serverProtos route with
    | some gprotos, some pbDef => (pbDecodeBody body gprotos pbDef).map some
    | _, _ =>
      match jsonDecode loadb body with
      | some msg => .ok (some msg)
      | none => .error .failed

/-- `pc_msg_decode` as its caller sees it. -/
def rawMsg (ms : List Bool) (data : Bytes) : Except CodingStop (RawMsg × List Bool) :=
  match msgDecode ms data with
  | .ok r => .ok r
  | .error .null => .error .failed
  | .error _ => .error .fault

/-- `pc__default_msg_parse_cb`; the raw message is kept beside the result, so that a
record of what arrived can name its type. -/
def defaultMsgParseCb (t : Tables) (requestRoute : ℕ → Option Bytes) (ms : List Bool)
    (data : Bytes) : Except CodingStop (RawMsg × Msg × List Bool) := do
  let (raw, ms) ← rawMsg ms data
  let (ok, ms) := malloc ms
  if ok then do
    let (route, protoRoute, ms) ← parseRoute t requestRoute ms raw
    let msg ← parseBody loadb t protoRoute raw.body
    .ok (raw, ⟨raw.id, route, msg⟩, ms)
  else .error .failed

/-- A parsed message keeps the id of the raw one, and an id comes only with a type that
has one. -/
theorem defaultMsgParseCb_id {t : Tables} {requestRoute : ℕ → Option Bytes} {ms ms' : List Bool}
    {data : Bytes} {raw : RawMsg} {msg : Msg}
    (h : defaultMsgParseCb loadb t requestRoute ms data = .ok (raw, msg, ms')) :
    msg.id = raw.id ∧ (0 < raw.id → raw.type.hasId = true) := by
  rw [defaultMsgParseCb] at h
  rcases hraw : rawMsg ms data with stop | ⟨raw₁, ms₁⟩
  · rw [hraw] at h
    exact absurd h (by simp [bind, Except.bind])
  · rw [hraw] at h
    simp only [bind, Except.bind] at h
    have hdec : msgDecode ms data = .ok (raw₁, ms₁) := by
      rw [rawMsg] at hraw
      split at hraw
      · next r hr => rw [hr, Except.ok.inj hraw]
      · exact absurd hraw (by simp)
      · exact absurd hraw (by simp)
    split at h
    · split at h
      · exact absurd h (by simp)
      · split at h
        · exact absurd h (by simp)
        · obtain ⟨rfl, hmsg⟩ := Prod.mk.inj (Except.ok.inj h)
          obtain ⟨rfl, -⟩ := Prod.mk.inj hmsg
          exact ⟨rfl, msgDecode_hasId hdec⟩
    · exact absurd h (by simp)

end Jansson

end Libpomelo
