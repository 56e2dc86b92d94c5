import Libpomelo.Handshake

/-!
# Connecting, requests and reads (`network.c`, `transport.c`)

The handlers of the loop that are not about a package: the result of a TCP connect,
the asyncs through which requests and notifies reach the loop, the completions of
their writes, and arriving bytes.
-/

namespace Libpomelo

/-- A libuv status. -/
def uvStatus (ok : Bool) : ℤ := if ok then 0 else -1

/-! ## Connecting -/

/-- How far `pc_connect` gets with a client in the state `INITED`. -/
inductive ConnectStage : Type where
  /-- it fails before there is a transport -/
  | refused
  /-- undefined behaviour -/
  | crashed
  /-- `uv_tcp_connect` fails -/
  | notConnected
  /-- the connect is under way -/
  | launched
  deriving DecidableEq, Repr

/-- The calls of `pc_connect` that can fail: the `uv_connect_t`, its context, in
`pc_transport_new` the transport, its socket and `uv_tcp_init`, and `uv_tcp_connect`. The
error path of `pc_transport_new` reads through the `NULL` that a failed first allocation
leaves. -/
def connectStages (supply : List Bool) : ConnectStage × List Bool :=
  let (connectReq, supply) := malloc supply
  if ¬ connectReq then (.refused, supply)
  else
    let (context, supply) := malloc supply
    if ¬ context then (.refused, supply)
    else
      let (transport, supply) := malloc supply
      if ¬ transport then (.crashed, supply)
      else
        let (socket, supply) := malloc supply
        if ¬ socket then (.refused, supply)
        else
          let (inited, supply) := malloc supply
          if ¬ inited then (.refused, supply)
          else
            let (connecting, supply) := malloc supply
            if connecting then (.launched, supply) else (.notConnected, supply)

/-- The connect request is installed, without handshake options. -/
def setConnReq (req : ConnReq) (w : World) : World :=
  { w with handshakeOpts := none, connReq := some req, nextConn := w.nextConn + 1 }

/-- The arguments of `pc_connect`. -/
structure ConnectArgs : Type where
  /-- `req` and `req->address` are not `NULL` -/
  valid : Bool
  /-- `handshake_opts` -/
  handshakeOpts : Option Json
  /-- `cb` -/
  cb : ConnectCb

/-- `pc_connect`; whether it returned `0`. On its error paths the fields it has set stay as
they are, and of a transport in the state `INITED` only the block is freed, not the socket. -/
def pcConnectWith (args : ConnectArgs) (w : World) : World × Bool :=
  if w.state ≠ .inited then (w, false)
  else if ¬ args.valid then (w, false)
  else
    let req : ConnReq := ⟨w.nextConn, args.cb⟩
    let (stage, supply) := connectStages w.supply
    let w := { w with state := .connecting, supply := supply }
    let installed := { setConnReq req w with handshakeOpts := args.handshakeOpts }
    match stage with
    | .refused => (w, false)
    | .crashed => (w.halt .crash, false)
    | .notConnected => ({ installed with transports := w.transports ++ [.inited] }, false)
    | .launched =>
      ({ installed with
          transports := w.transports ++ [TransportState.connecting]
          connects := w.connects ++ [(w.transports.length, req)] }.note (.connectAccepted req),
        true)

/-- `pc_connect` as the client's own connect functions call it: with a request, and without
handshake options. -/
def pcConnect (cb : ConnectCb) (w : World) : World × Bool := pcConnectWith ⟨true, none, cb⟩ w

/-- `pc_transport_start`. -/
def transportStart (t : ℕ) (w : World) : World :=
  { w with transports :=
      if w.transports[t]? = some .connecting then w.transports.set t .working else w.transports }

/-- `uv_read_start` refuses a stream that is being closed, and no other. -/
def uvReadStart (t : ℕ) (w : World) : Bool := w.transports[t]? ≠ some .closed

/-- The error path of `pc__on_tcp_connect`. -/
def connectError (cfg : Config) (f : Failure) (req : ConnReq) (w : World) : World :=
  (failWith cfg f { w with connReq := none }).andThen (connectCb cfg req (-1))

/-- `pc__on_tcp_connect`. -/
def onTcpConnect (cfg : Config) (t : ℕ) (req : ConnReq) (status : ℤ) (w : World) : World :=
  if w.state ≠ .connecting then connectCb cfg req (-1) { w with connReq := none }
  else if status = -1 then connectError cfg .connect req (transportDestroy t w)
  else
    let w := { w with transport := some t }
    if ¬ uvReadStart t w then connectError cfg .readStart req w
    else
      match handshakeReq cfg (transportStart t { w with state := .connected }) with
      | (w, true) => w
      | (w, false) => w.andThen (connectError cfg .handshakeReq req)

/-! ## Requests and notifies -/

/-- How far `pc__request` or `pc__notify` gets. -/
inductive SendStage : Type where
  /-- `goto error` -/
  | failed
  /-- undefined behaviour -/
  | crashed
  /-- `uv_write` on the socket of this transport took the package -/
  | queued (t : ℕ) (pkg : Option Bytes)

/-- The stages that `pc__request` and `pc__notify` share: encode the message, encode the
package, allocate the write and its context, write. The result of the package encoder is
not checked (the message buffer is, a second time): a message that is too long leaves an
uninitialised pointer, which is read once there is a context, and a failed allocation a
buffer of length `-1`. Together with the stage come the outcomes left in the supply. -/
def sendStages (cfg : Config) (req : TcpReq) (tables : Tables) (transport : Option ℕ)
    (supply : List Bool) : SendStage × List Bool :=
  match defaultMsgEncodeCb cfg.dumps tables supply req.id req.route req.msg with
  | .error .failed => (.failed, supply)
  | .error .fault => (.crashed, supply)
  | .ok (buf, supply) =>
    let pkg := pkgEncode supply pkgData buf.base
    let supply := if pkgMaxBodyBytes ≤ buf.base.length then supply else (malloc supply).2
    let (writeReq, supply) := malloc supply
    if ¬ writeReq then (.failed, supply)
    else
      let (context, supply) := malloc supply
      if ¬ context then (.failed, supply)
      else if pkgMaxBodyBytes ≤ buf.base.length then (.crashed, supply)
      else
        match transport with
        | none => (.crashed, supply)
        | some t =>
          let (written, supply) := malloc supply
          if written then (.queued t pkg, supply) else (.failed, supply)

/-- The world after these stages; the flag is `false` where the code goes to its error
label. -/
def sendReq (cfg : Config) (req : TcpReq) (cb : WriteCb) (w : World) : World × Bool :=
  match sendStages cfg req w.tables w.transport w.supply with
  | (.failed, supply) => ({ w with supply := supply }, false)
  | (.crashed, supply) => ({ w with supply := supply }.halt .crash, true)
  | (.queued t pkg, supply) => (queueWrite cb t pkg { w with supply := supply }, true)

/-- `pc__request`, from the async with status `0`. -/
def request (cfg : Config) (req : TcpReq) (w : World) : World :=
  if ¬ w.working req.transport then callback cfg (.requestCb req.serial 0) w
  else
    match sendReq cfg req (.request req) w with
    | (w, true) => w.andThen (requestsSet cfg req)
    | (w, false) => callback cfg (.requestCb req.serial (-1)) w

/-- `pc__notify`, from the async with status `0`. -/
def notify (cfg : Config) (req : TcpReq) (w : World) : World :=
  if ¬ w.working req.transport then callback cfg (.notifyCb req.serial 0) w
  else
    match sendReq cfg req (.notify req) w with
    | (w, true) => w
    | (w, false) => callback cfg (.notifyCb req.serial (-1)) w

/-- `pc__async_write_cb`. -/
def asyncWriteCb (cfg : Config) (req : TcpReq) (w : World) : World :=
  let w := w.note (.asyncFired req (w.working req.transport))
  match req.type with
  | .request => request cfg req w
  | .notify => notify cfg req w

/-- `pc__on_request`. -/
def onRequest (cfg : Config) (req : TcpReq) (status : ℤ) (w : World) : World :=
  if ¬ w.working req.transport then callback cfg (.requestCb req.serial (-1)) w
  else if status = -1 then callback cfg (.requestCb req.serial status) (requestsDel req.id w)
  else w

/-- `pc__on_notify`. -/
def onNotify (cfg : Config) (req : TcpReq) (status : ℤ) (w : World) : World :=
  if ¬ w.working req.transport then callback cfg (.notifyCb req.serial (-1)) w
  else callback cfg (.notifyCb req.serial status) w

/-- The transport that the completion of a write looks at. -/
def Write.context (write : Write) : ℕ :=
  match write.cb with
  | .request req | .notify req => req.transport
  | _ => write.transport

/-- The request of a write is in the request map, under its id. -/
def Write.listed (write : Write) (w : World) : Bool :=
  match write.cb with
  | .request req => (requestsGet w req.id).any fun r => r.serial = req.serial
  | _ => false

/-- The completion of a write. -/
def writeCb (cfg : Config) (write : Write) (status : ℤ) (w : World) : World :=
  let w := w.note (.writeDone write status (w.working write.context) (write.listed w))
  match write.cb with
  | .handshakeReq => handshakeReqCb cfg write.transport status w
  | .handshakeAck => handshakeAckCb cfg write.transport status w
  | .heartbeatReq => heartbeatReqCb cfg status w
  | .request req => onRequest cfg req status w
  | .notify req => onNotify cfg req status w

/-! ## Reading -/

/-- The arguments of a read callback. -/
inductive Nread : Type where
  /-- `-1` -/
  | error
  /-- `0` -/
  | nothing
  /-- bytes -/
  | bytes (data : Bytes)

/-- `pc_client_on_tcp_read`; `ms` are the outcomes of the parser's allocations. -/
def clientOnTcpRead (cfg : Config) (ms : List Bool) (data : Bytes) (w : World) : World :=
  match pkgParserFeed (clientHost cfg) ms w data with
  | some (0, w) => w
  | some (_, w) => w.andThen (failWith cfg .feed)
  | none => w.halt .hang

/-- `pc_tp_on_tcp_read`. -/
def tpOnTcpRead (cfg : Config) (t : ℕ) (ms : List Bool) (nread : Nread) (w : World) : World :=
  if ¬ w.working t then w
  else
    match nread with
    | .error => failWith cfg .read { w with reconnecting := false }
    | .nothing => w
    | .bytes data =>
      { clientOnTcpRead cfg ms data ({ w with reading := some t }.note (.read t)) with
        reading := none }

/-! ## The reconnect timer -/

/-- `pc_connect_req_new` succeeds. -/
def connectReqNew (w : World) : World × Bool :=
  if ¬ w.outcome then (w.called, false) else (w.called.called, w.called.outcome)

/-- What precedes `pc_connect` in `pc__client_reconnect_timer_cb`: the resolver and the allocation
of the connect request. -/
def reconnectPrepare (w : World) : World × Bool :=
  if w.host ∧ ¬ w.outcome then (w.called, false)
  else connectReqNew (if w.host then w.called else w)

/-- The attempt of `pc__client_reconnect_timer_cb`: resolve, allocate, connect. -/
def reconnectAttempt (w : World) : World × Bool :=
  match reconnectPrepare w with
  | (w, false) => (w, false)
  | (w, true) => pcConnect .reconnected w

/-- `pc__client_reconnect_timer_cb`. -/
def clientReconnectTimerCb (cfg : Config) (w : World) : World :=
  match reconnectAttempt w with
  | (w, true) => w
  | (w, false) => w.andThen fun w => failWith cfg .reconnect { w with reconnecting := false }

end Libpomelo
