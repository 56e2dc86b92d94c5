import Libpomelo.Client

/-!
# Packages on a connection (`pkg-handshake.c`, `pkg-heartbeat.c`, `protocol.c`)

What the client writes by itself (the handshake request, its ack, heartbeats), what
it does with the packages that arrive, and the completion callbacks of its writes.

`pc__binary_write` is the common way out for the three kinds of packages. It
attaches the current transport to the write; two of the completion callbacks read it
back as a transport, the heartbeat's reads it as a client.
-/

namespace Libpomelo

/-! ## Writing -/

/-- `uv_write` on the socket of a transport accepted the bytes. -/
def queueWrite (cb : WriteCb) (t : ℕ) (data : Option Bytes) (w : World) : World :=
  let write : Write := ⟨cb, t, data⟩
  { w with writes := w.writes ++ [write] }.note (.wrote write)

/-- `pc__binary_write`: the world after it, and whether it returned `0`. The second
allocation is used without a check (the data is checked in its place). -/
def binaryWrite (cb : WriteCb) (data : Option Bytes) (w : World) : World × Bool :=
  if w.state ≠ .connected ∧ w.state ≠ .working then (w, false)
  else if ¬ w.outcome then (w.called, false)
  else
    match data, w.transport with
    | none, _ => (w.called.called, false)
    | some data, some t =>
      if ¬ w.called.outcome then (w.called.called.halt .crash, false)
      else if ¬ w.called.called.outcome then (w.called.called.called, false)
      else (queueWrite cb t (some data) w.called.called.called, true)
    -- `client->transport->socket` with `client->transport` at `NULL`
    | some _, none => (w.called.called.halt .crash, false)

/-! ## Packages the client sends -/

/-- Numbers of the package types. -/
def pkgHandshake : ℕ := 1

/-- `PC_PKG_HANDSHAKE_ACK`. -/
def pkgHandshakeAck : ℕ := 2

/-- `PC_PKG_HEARBEAT`. -/
def pkgHeartbeat : ℕ := 3

/-- `PC_PKG_DATA`. -/
def pkgData : ℕ := 4

/-- `PC_PKG_KICK`. -/
def pkgKick : ℕ := 5

/-- A package of the given type around data that is not too long; `none` for
`buf.len = -1`. -/
def encodePkg (type : ℕ) (data : Bytes) (w : World) : Option Bytes × World :=
  (pkgEncode w.supply type data, w.called)

/-- "compose handshake package": the version known from before, or else from the file,
is remembered and announced. -/
def loadProtoVer (w : World) : World :=
  match w.protoVer, w.files.version with
  | none, some proto => { w with protoVer := jsonObjectGet (some proto) "protoVersion" }
  | _, _ => w

/-- The body of the handshake request. -/
def handshakeBody (w : World) : Json :=
  let sys := jsonObjectSet (.obj [("type", .str "c"), ("version", .str "0.3.4")]) "protoVersion"
    w.protoVer
  jsonObjectSet (.obj [("sys", sys)]) "user" (jsonObjectGet w.handshakeOpts "user")

/-- `pc__handshake_req`. When the package could not be allocated the write refuses the
`NULL` buffer; when the body is too long the buffer was never set. -/
def handshakeReq (cfg : Config) (w : World) : World × Bool :=
  let w := loadProtoVer w
  match cfg.dumps (handshakeBody w) with
  | none => (w, false)
  | some data =>
    if pkgMaxBodyBytes ≤ data.length then (w.halt .crash, false)
    else
      let (buf, w) := encodePkg pkgHandshake data w
      match binaryWrite .handshakeReq buf w with
      | (w, false) => (w, false)
      | (w, true) =>
        match w.handshakeTimer with
        | some _ =>
          ({ w with handshakeTimer := some ⟨true, 0⟩ }.note (.announced w.protoVer), true)
        | none => (w.halt .crash, true)

/-- `pc__handshake_ack`; its result is not looked at. -/
def handshakeAck (w : World) : World :=
  match encodePkg pkgHandshakeAck [] w with
  | (none, w) => w
  | (some buf, w) => (binaryWrite .handshakeAck (some buf) w).1

/-- `pc__heartbeat_req`. -/
def heartbeatReq (w : World) : World × Bool :=
  if w.state ≠ .working then (w, false)
  else
    match encodePkg pkgHeartbeat [] w with
    | (none, w) => (w, false)
    | (some buf, w) => binaryWrite .heartbeatReq (some buf) w

/-! ## Timers -/

/-- `pc__heartbeat`. -/
def heartbeat (w : World) : World :=
  match w.timeoutTimer, w.heartbeatTimer with
  | some timeout, some heartbeat =>
    { w with timeoutTimer := some (uvTimerStop timeout)
             heartbeatTimer := some (uvTimerAgain heartbeat) }
  | _, _ => w.halt .crash

/-- `pc__heartbeat_cb`. -/
def heartbeatCb (cfg : Config) (w : World) : World :=
  let w := { w with heartbeatTimer := w.heartbeatTimer.map uvTimerStop }
  match heartbeatReq w with
  | (w, false) => w.andThen (failWith cfg .heartbeatReq)
  | (w, true) => { w with timeoutTimer := w.timeoutTimer.map uvTimerAgain }

/-- `pc__timeout_cb`. -/
def timeoutCb (cfg : Config) (w : World) : World :=
  let w := { w with timeoutTimer := w.timeoutTimer.map uvTimerStop }.note .timedOut
  (emitEvent cfg "timeout" w).andThen (failWith cfg .heartbeatTimeout)

/-- `pc__handshake_timeout_cb`. -/
def handshakeTimeoutCb (cfg : Config) (w : World) : World :=
  let w := { w with handshakeTimer := w.handshakeTimer.map uvTimerStop }
  (emitEvent cfg "timeout" w).andThen (failWith cfg .handshakeTimeout)

/-! ## The handshake response -/

/-- `PC_HANDSHAKE_OK`. -/
def handshakeOk : ℤ := 200

/-- `PC_HEARTBEAT_TIMEOUT_FACTOR`. -/
def heartbeatTimeoutFactor : ℤ := 2

/-- "setup heartbeat". -/
def setupHeartbeat (sys : Json) (w : World) : World :=
  let hb := jsonIntegerValue (jsonObjectGet (some sys) "heartbeat")
  if hb ≤ 0 then { w with heartbeat := -1, timeout := -1 }
  else
    let heartbeat := Int.bmod (hb * 1000) (2 ^ 32)
    let timeout := Int.bmod (heartbeat * heartbeatTimeoutFactor) (2 ^ 32)
    { w with
      heartbeat := heartbeat
      timeout := timeout
      heartbeatTimer := w.heartbeatTimer.map (uvTimerSetRepeat · heartbeat)
      timeoutTimer := w.timeoutTimer.map (uvTimerSetRepeat · timeout) }

/-- "setup route dictionary". -/
def setupDictionary (sys : Json) (w : World) : World :=
  match jsonObjectGet (some sys) "dict" with
  | some dict => { w with tables := setupRouteDictionary w.tables dict }
  | none => w

/-- `pc__dump_file`: what the file holds afterwards. `json_dump_file` empties the file
first and then refuses what is not an array or an object. -/
def dumpFile : Option Json → Option Json
  | some (.obj kvs) => some (.obj kvs)
  | some (.arr xs) => some (.arr xs)
  | _ => none

/-- "setup protobuf data definition": definitions that came along are installed and
written to the cache, missing ones are read from it, and without `useProto` all are
dropped. -/
def setupProtos (sys : Json) (w : World) : World :=
  match jsonObjectGet (some sys) "useProto", jsonObjectGet (some sys) "protos" with
  | some _, some protos =>
    let server := jsonObjectGet (some protos) "server"
    let client := jsonObjectGet (some protos) "client"
    let version := jsonObjectSet (.obj []) "protoVersion" (jsonObjectGet (some protos) "version")
    { w with
      tables := { w.tables with serverProtos := server, clientProtos := client }
      files := ⟨dumpFile (some version), dumpFile server, dumpFile client⟩ }
  | some _, none =>
    { w with tables :=
        { w.tables with
          serverProtos := w.tables.serverProtos.or w.files.server
          clientProtos := w.tables.clientProtos.or w.files.client } }
  | none, _ =>
    { w with tables := { w.tables with serverProtos := none, clientProtos := none }
             protoVer := none }

/-- The part of `pc__handshake_resp` that looks at `sys`. -/
def setupSys (res : Json) (w : World) : World :=
  match jsonObjectGet (some res) "sys" with
  | some sys => setupProtos sys (setupDictionary sys (setupHeartbeat sys w))
  | none => w

/-- The user's handshake callback, and its answer. -/
def askUser (cfg : Config) (res : Json) (w : World) : World × ℤ :=
  match cfg.handshakeCb with
  | none => (w, 0)
  | some cb => (callback cfg .handshakeCb w, cb w.trace (jsonObjectGet (some res) "user"))

/-- `pc__handshake_resp`: the world after it, and whether it returned `0`. -/
def handshakeResp (cfg : Config) (data : Bytes) (w : World) : World × Bool :=
  match w.handshakeTimer with
  -- `uv_timer_stop(NULL)`
  | none => (w.halt .crash, true)
  | some timer =>
    let w := { w with handshakeTimer := some (uvTimerStop timer) }
    match cfg.loadb data with
    | none => (w, false)
    | some res =>
      if jsonIntegerValue (jsonObjectGet (some res) "code") ≠ handshakeOk then (w, false)
      else
        let w := setupSys res w
        let (w, status) := askUser cfg res
          (w.note (.shook w.transport res w.tables.serverProtos w.tables.clientProtos))
        let w := if status = 0 then w.andThen fun w => handshakeAck (w.note (.agreed w.transport res))
          else w
        (w.andThen heartbeat, true)

/-! ## Data packages -/

/-- `pc__process_response`. -/
def processResponse (cfg : Config) (id : ℕ) (w : World) : World :=
  match requestsGet w id with
  | none => w
  | some req => callback cfg (.requestCb req.serial 0) (requestsDel id w)

/-- `pc__data`: the world after it, and whether it returned `0`. -/
def pcData (cfg : Config) (body : Bytes) (w : World) : World × Bool :=
  let route := fun id => (requestsGet w id).map TcpReq.route
  match defaultMsgParseCb cfg.loadb w.tables route w.supply body with
  | .error .failed => (w, false)
  | .error .fault => (w.halt .crash, true)
  | .ok (raw, msg, supply) =>
    let w := { w with supply := supply }.note (.message raw (requestsGet w raw.id).isSome)
    if 0 < msg.id then (processResponse cfg msg.id w, true)
    else
      match msg.route with
      | some route => (callback cfg (.emitted route) w, true)
      -- `pc_map_get` with the key `NULL`
      | none => (w.halt .crash, true)

/-! ## Dispatch -/

/-- The `switch` of `pc__pkg_cb`. -/
def dispatch (cfg : Config) (type : ℕ) (body : Bytes) (w : World) : World × Bool :=
  if type = pkgHandshake then handshakeResp cfg body w
  else if type = pkgHeartbeat then (heartbeat w, true)
  else if type = pkgData then pcData cfg body w
  else if type = pkgKick then (emitEvent cfg "onKick" w, true)
  else (w, false)

/-- `pc__pkg_cb`. -/
def pkgCb (cfg : Config) (type : ℕ) (body : Bytes) (w : World) : World :=
  match dispatch cfg type body (w.note (.pkg type body)) with
  | (w, true) => w
  | (w, false) => w.andThen (failWith cfg .package)

/-- The client as the host of its parser. -/
def clientHost (cfg : Config) : PkgHost World where
  parser := World.pkgParser
  setParser w p := { w with pkgParser := p }
  cb type buf _ w := w.andThen (pkgCb cfg type buf.bytes)

/-! ## Completions of the client's own writes -/

/-- "`if(client->conn_req)`": take the connect request and call it back. -/
def finishConnect (cfg : Config) (status : ℤ) (w : World) : World :=
  match w.connReq with
  | none => w
  | some req => connectCb cfg req status { w with connReq := none }

/-- `pc__handshake_req_cb`. -/
def handshakeReqCb (cfg : Config) (t : ℕ) (status : ℤ) (w : World) : World :=
  if ¬ w.working t then w
  else if status = -1 then finishConnect cfg status (failWith cfg .handshakeReqWrite w)
  else w

/-- `pc__handshake_ack_cb`. -/
def handshakeAckCb (cfg : Config) (t : ℕ) (status : ℤ) (w : World) : World :=
  if ¬ w.working t then w
  else
    let w := if status = -1 then failWith cfg .handshakeAckWrite w
      else { w with state := .working }.note (.acked w.state)
    finishConnect cfg status w

/-- `pc__heartbeat_req_cb`: a failed write stops what is really a transport. -/
def heartbeatReqCb (cfg : Config) (status : ℤ) (w : World) : World :=
  if status = -1 then (if cfg.heartbeatStops then clientStop cfg w else w.halt .crash) else w

end Libpomelo
