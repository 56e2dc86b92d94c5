import Libpomelo.Protocol

/-!
# The client: state, environment and teardown (`client.c`, `transport.c`, `map.c`)

One `pc_client_t` is shared by two threads: the user's, which calls the public
functions, and the worker, which runs the libuv loop and with it every handler.
`World` is the client together with everything around it that the code talks to:

* the fields of the client;
* what libuv still owes it (connects, writes and asyncs under way), and the
  transports created so far;
* where the two threads stand;
* what the user's program and the server can observe (`trace`, newest event first).

A handler is one step. What libuv, the allocator and the resolver answer is drawn
from `supply`, one outcome for each call that can fail. The user's callbacks may
call back into the client: `Config.react` says what they do, from everything that
happened so far.

Undefined behaviour is an outcome too (`Halt.crash`), as is the endless loop of
`pc_map_set` (`Halt.hang`); nothing runs after either.

This module has the state and the functions that end a connection: the request map,
`pc_client_stop`, `pc__client_reconnect` and what they call.
-/

namespace Libpomelo

/-! ## Types -/

/-- `pc_client_state`. -/
inductive ClientState : Type where
  | inited | connecting | connected | working | disconnecting | closed
  deriving DecidableEq, Repr

/-- `pc_transport_state`. -/
inductive TransportState : Type where
  | inited | connecting | working | closed
  deriving DecidableEq, Repr

/-- A `uv_timer_t`: whether it is armed, and its repeat interval. -/
structure Timer : Type where
  /-- armed -/
  active : Bool
  /-- `repeat`, in milliseconds -/
  period : ℕ
  deriving DecidableEq, Repr

/-- `type` of a `pc_tcp_req_t`. -/
inductive ReqType : Type where
  | request | notify
  deriving DecidableEq, Repr

/-- A `pc_request_t` or `pc_notify_t`. -/
structure TcpReq : Type where
  /-- which call of `pc_request` or `pc_notify` it belongs to -/
  serial : ℕ
  /-- `type` -/
  type : ReqType
  /-- `id`, `0` for a notify -/
  id : ℕ
  /-- `transport` -/
  transport : ℕ
  /-- `route` -/
  route : Bytes
  /-- `msg` -/
  msg : Option Json

/-- The callback of a `pc_connect_t`. -/
inductive ConnectCb : Type where
  /-- `pc__client_connected_cb` -/
  | connected
  /-- the user's, given to `pc_client_connect2` -/
  | user
  /-- `pc__client_connect3_cb` -/
  | connect3
  /-- `pc__client_reconnected_cb` -/
  | reconnected
  deriving DecidableEq, Repr

/-- A `pc_connect_t`. -/
structure ConnReq : Type where
  /-- which call of `pc_connect` it belongs to -/
  serial : ℕ
  /-- `cb` -/
  cb : ConnectCb
  deriving DecidableEq, Repr

/-- The completion callback of a write, with the request it belongs to. -/
inductive WriteCb : Type where
  /-- `pc__handshake_req_cb` -/
  | handshakeReq
  /-- `pc__handshake_ack_cb` -/
  | handshakeAck
  /-- `pc__heartbeat_req_cb` -/
  | heartbeatReq
  /-- `pc__on_request` -/
  | request (req : TcpReq)
  /-- `pc__on_notify` -/
  | notify (req : TcpReq)

/-- A `uv_write_t` under way. -/
structure Write : Type where
  /-- the completion callback -/
  cb : WriteCb
  /-- the transport whose socket it was queued on -/
  transport : ℕ
  /-- the bytes; `none` for the buffer of length `-1` that `pc_pkg_encode` returns when
  it cannot allocate -/
  data : Option Bytes

/-- A failure that a handler reports on `stderr` before it stops the client. -/
inductive Failure : Type where
  /-- "Connect failed error" -/
  | connect
  /-- "Fail to start reading server" -/
  | readStart
  /-- `pc__handshake_req` returned `-1` -/
  | handshakeReq
  /-- "Fail to write handshake request async" -/
  | handshakeReqWrite
  /-- "Fail to write handshake ack async" -/
  | handshakeAckWrite
  /-- "Pomelo client handshake timeout" -/
  | handshakeTimeout
  /-- `pc__heartbeat_req` returned `-1` -/
  | heartbeatReq
  /-- "Pomelo client heartbeat timeout" -/
  | heartbeatTimeout
  /-- a package handler returned `-1` -/
  | package
  /-- "Fail to process data from server" -/
  | feed
  /-- "Read error", or the end of the stream -/
  | read
  /-- "dns resolve error", "out of memory" or "Fail to connect to server." -/
  | reconnect
  deriving DecidableEq, Repr

/-- What a run leaves behind. -/
inductive Event : Type where
  /-- a request or notify was accepted -/
  | accepted (req : TcpReq)
  /-- a request callback ran -/
  | requestCb (serial : ℕ) (status : ℤ)
  /-- a notify callback ran -/
  | notifyCb (serial : ℕ) (status : ℤ)
  /-- `pc_connect` accepted an attempt -/
  | connectAccepted (req : ConnReq)
  /-- a connect callback ran -/
  | connectCb (req : ConnReq) (status : ℤ)
  /-- `pc_emit_event` -/
  | emitted (event : Bytes)
  /-- the handshake request was queued and announced this `protoVersion` -/
  | announced (version : Option Json)
  /-- a handshake response with code 200 was processed while this was the current
  transport; the definitions `server_protos` and `client_protos` in force after it -/
  | shook (transport : Option ℕ) (res : Json) (server client : Option Json)
  /-- the user's handshake callback ran -/
  | handshakeCb
  /-- nobody refused the response, and this was the current transport -/
  | agreed (transport : Option ℕ) (res : Json)
  /-- `pc_proto_copy` set version and definitions -/
  | copied (version server client : Option Json)
  /-- the async of a request or notify fired; was its transport working? -/
  | asyncFired (req : TcpReq) (working : Bool)
  /-- a write was queued -/
  | wrote (write : Write)
  /-- a write completed; was the transport it is filed under working, and is the
  request still in the request map? -/
  | writeDone (write : Write) (status : ℤ) (working listed : Bool)
  /-- bytes arrived on a transport -/
  | read (transport : ℕ)
  /-- a package was handed to `pc__pkg_cb` -/
  | pkg (type : ℕ) (body : Bytes)
  /-- a message was parsed; is its id in the request map? -/
  | message (raw : RawMsg) (pending : Bool)
  /-- the timeout timer fired -/
  | timedOut
  /-- a handler reported a failure -/
  | failure (f : Failure)
  /-- `pc_client_stop` was called, with these values of `state` and `reconnecting` -/
  | stop (state : ClientState) (reconnecting : Bool)
  /-- `pc_client_stop` closed the client -/
  | closed
  /-- `pc__client_reconnect` reset the client and armed the timer with this delay before
  jitter; `none` is an overflow -/
  | reset (delay : Option ℤ)
  /-- the ack completed and made the client `WORKING`, from the given state -/
  | acked (from_ : ClientState)
  /-- `pc_client_disconnect` set the state; was it called by a request callback that
  `pc__client_reconnect_reset` runs? -/
  | disconnect (inReset : Bool)
  /-- `uv_async_send` on `close_async`; was the handle open? -/
  | closeSend (isOpen : Bool)
  /-- the message of `close_async` was handled -/
  | closeHandled
  /-- `pc__cond_broadcast`; was the caller of `pc_client_connect` waiting? -/
  | broadcast (heard : Bool)
  /-- `uv_thread_join` returned -/
  | joined

/-- A call a user's callback makes. -/
inductive UserAct : Type where
  | stop
  | disconnect
  | request (route : Bytes) (msg : Option Json)
  | notify (route : Bytes) (msg : Option Json)
  | protoCopy (version client server : Option Json)

/-- Why nothing runs any more. -/
inductive Halt : Type where
  /-- undefined behaviour -/
  | crash
  /-- an endless loop -/
  | hang
  deriving DecidableEq, Repr

/-- Where the worker thread stands. -/
inductive Worker : Type where
  /-- not created -/
  | none
  /-- inside `uv_run` -/
  | looping
  /-- `uv_run` returned and the state was set -/
  | ended
  /-- the disconnect event was emitted -/
  | emitted
  /-- the condition was broadcast and the thread is over -/
  | exited
  /-- joined -/
  | joined
  deriving DecidableEq, Repr

/-- Where the user's thread stands. -/
inductive UserPc : Type where
  /-- outside the library -/
  | idle
  /-- in `pc_client_connect`, before the wait -/
  | connectWait
  /-- blocked in `pc__cond_wait` -/
  | waiting
  /-- woken, about to return -/
  | woken
  /-- in `pc_client_disconnect`, before the send -/
  | disconnecting
  /-- in `pc_client_destroy`, before its second look at the state -/
  | destroyNotInited
  /-- in `pc_client_destroy`, before it disconnects -/
  | destroyOpen
  /-- in `pc_client_destroy`, before the send -/
  | destroyDisconnecting
  /-- in `pc_client_destroy`, before the join -/
  | destroyJoin
  /-- in `pc_client_destroy`, at `finally` -/
  | destroyFinally
  /-- the client was freed -/
  | freed
  deriving DecidableEq, Repr

/-- The value of an `int` expression; `none` on overflow. -/
def intExpr (x : ℤ) : Option ℤ := if -2 ^ 31 ≤ x ∧ x < 2 ^ 31 then some x else none

/-- What `pc_client_new_with_reconnect` stores for the delays. -/
structure ReconnectSettings : Type where
  /-- `reconnect_delay` -/
  reconnectDelay : ℤ
  /-- `reconnect_delay_max` -/
  reconnectDelayMax : ℤ
  /-- `enable_exp_backoff` -/
  enableExpBackoff : Bool
  /-- `max_reconnects_incr`; `none` when computing it overflowed -/
  maxReconnectsIncr : Option ℤ
  deriving DecidableEq, Repr

/-- `delay << reconnects` for a positive `delay`. -/
def intShl (delay : ℤ) (reconnects : ℕ) : Option ℤ :=
  if reconnects < 32 then intExpr (delay * 2 ^ reconnects) else none

/-- The delay of `pc__client_reconnect` before the jitter, for the incremented counter. -/
def reconnectBase (s : ReconnectSettings) (reconnects : ℕ) : Option ℤ := do
  let incr ← s.maxReconnectsIncr
  let delay ←
    if incr ≤ reconnects then some s.reconnectDelayMax
    else if s.enableExpBackoff then intShl s.reconnectDelay reconnects
    else intExpr (s.reconnectDelay * reconnects)
  pure (if s.reconnectDelayMax < delay then s.reconnectDelayMax else delay)

/-- The files of the protobuf cache. -/
structure ProtoFiles : Type where
  /-- `protoVersion` -/
  version : Option Json
  /-- `serverProtos` -/
  server : Option Json
  /-- `clientProtos` -/
  client : Option Json

/-- What stays fixed over a run: the settings of the client, the user's program, and
jansson's printer and parser. -/
structure Config : Type where
  /-- `enable_reconnect` -/
  enableReconnect : Bool
  /-- what the constructor stored for the delays -/
  reconnectSettings : ReconnectSettings
  /-- a failed heartbeat write stops the client, as its handler intends; `false` for what
  the handler really does -/
  heartbeatStops : Bool
  /-- `handshake_cb`, as its return value -/
  handshakeCb : Option (List Event → Option Json → ℤ)
  /-- what a callback does, given all events up to its invocation -/
  react : List Event → List UserAct
  /-- `json_dumps(_, JSON_COMPACT)` -/
  dumps : Json → Option Bytes
  /-- `json_loadb` -/
  loadb : Bytes → Option Json

/-- A client and its surroundings. -/
structure World : Type where
  /-- `state` -/
  state : ClientState
  /-- `transport` -/
  transport : Option ℕ
  /-- `requests`: id and request, in the order of insertion -/
  requests : List (ℕ × TcpReq)
  /-- `pkg_parser` -/
  pkgParser : PkgParser
  /-- `heartbeat` -/
  heartbeat : ℤ
  /-- `timeout` -/
  timeout : ℤ
  /-- `handshake_opts` -/
  handshakeOpts : Option Json
  /-- `conn_req` -/
  connReq : Option ConnReq
  /-- `route_to_code`, `code_to_route`, `server_protos`, `client_protos` -/
  tables : Tables
  /-- `proto_ver` -/
  protoVer : Option Json
  /-- `heartbeat_timer`, `none` for `NULL` -/
  heartbeatTimer : Option Timer
  /-- `timeout_timer` -/
  timeoutTimer : Option Timer
  /-- `handshake_timer` -/
  handshakeTimer : Option Timer
  /-- `close_async` is not `NULL` -/
  closeAsync : Bool
  /-- `reconnect_timer` -/
  reconnectTimer : Timer
  /-- `reconnect_timer` was closed -/
  reconnectClosed : Bool
  /-- `reconnects` -/
  reconnects : ℕ
  /-- `reconnecting` -/
  reconnecting : Bool
  /-- `host` is not `NULL` -/
  host : Bool
  /-- the states of all transports created so far -/
  transports : List TransportState
  /-- connects under way: transport and connect request -/
  connects : List (ℕ × ConnReq)
  /-- writes under way -/
  writes : List Write
  /-- asyncs under way -/
  asyncs : List TcpReq
  /-- `close_async` was sent and not handled yet -/
  closeSent : Bool
  /-- the transport whose read handler is running -/
  reading : Option ℕ
  /-- `pc__client_reconnect_reset` is running -/
  resetting : Bool
  /-- the worker thread -/
  worker : Worker
  /-- the user's thread -/
  user : UserPc
  /-- `pc__req_id` -/
  reqId : ℕ
  /-- calls of `pc_request` and `pc_notify` accepted so far -/
  nextSerial : ℕ
  /-- calls of `pc_connect` so far -/
  nextConn : ℕ
  /-- the protobuf cache -/
  files : ProtoFiles
  /-- outcomes of the calls that can fail -/
  supply : List Bool
  /-- everything that happened, newest first -/
  trace : List Event
  /-- set when nothing runs any more -/
  halted : Option Halt

namespace World

/-! ## Small steps -/

/-- Record an event. -/
def note (e : Event) (w : World) : World := { w with trace := e :: w.trace }

/-- Nothing runs from here on. -/
def halt (h : Halt) (w : World) : World := { w with halted := some h }

/-- Go on with `f` unless the program is gone. -/
def andThen (w : World) (f : World → World) : World := if w.halted.isSome then w else f w

/-- The next outcome of a call that can fail. -/
def outcome (w : World) : Bool := (malloc w.supply).1

/-- The world after that call. -/
def called (w : World) : World := { w with supply := (malloc w.supply).2 }

/-- `PC_TP_ST_WORKING == transport->state`. -/
def working (w : World) (t : ℕ) : Bool := w.transports[t]? = some .working

theorem andThen_of_some {w : World} {f : World → World} (h : w.halted.isSome = true) :
    w.andThen f = w := if_pos h

theorem andThen_of_none {w : World} {f : World → World} (h : w.halted = none) :
    w.andThen f = f w := by
  rw [andThen, h]
  rfl

/-- What runs at the end has run all the time. -/
theorem running_of_andThen {w : World} {f : World → World} (h : (w.andThen f).halted = none) :
    w.halted = none := by
  by_contra hno
  rw [andThen_of_some (Option.isSome_iff_ne_none.mpr hno)] at h
  exact hno h

@[simp] theorem called_trace (w : World) : w.called.trace = w.trace := rfl

end World

/-- `uv_timer_stop`. -/
def uvTimerStop (timer : Timer) : Timer := { timer with active := false }

/-- `uv_timer_again`: without effect when the interval is zero. -/
def uvTimerAgain (timer : Timer) : Timer :=
  if timer.period ≠ 0 then { timer with active := true } else timer

/-- `uv_timer_set_repeat`; the `int` is converted to `uint64_t`. -/
def uvTimerSetRepeat (timer : Timer) (interval : ℤ) : Timer :=
  { timer with period := asUInt64 interval }

/-- What `uv__run_timers` does before it calls back: a repeating timer is armed again. -/
def uvTimerFired (timer : Timer) : Timer := uvTimerAgain (uvTimerStop timer)

/-! ## Transports -/

/-- `uv_close` on the socket of a transport, unless it is closed already. In the state
`INITED` only the block is freed. -/
def closeSocket (t : ℕ) (transports : List TransportState) : List TransportState :=
  match transports[t]? with
  | some .connecting | some .working => transports.set t .closed
  | _ => transports

/-- `pc_transport_destroy`. -/
def transportDestroy (t : ℕ) (w : World) : World :=
  { w with transports := closeSocket t w.transports }

/-- "`if(client->transport)`": destroy the current transport and forget it. -/
def dropTransport (w : World) : World :=
  { w with
    transport := none
    transports := match w.transport with
      | some t => closeSocket t w.transports
      | none => w.transports }

/-! ## The request map -/

/-- `pc__hash`, for texts without bytes from 128 up. -/
def pcHash (key : String) : ℕ := ((utf8Bytes key).map UInt8.toNat).sum

/-- The capacity given to `pc_map_new`. -/
def requestsCapacity : ℕ := 256

/-- The bucket of a request id. -/
def requestBucket (id : ℕ) : ℕ := pcHash (decimal id) % requestsCapacity

/-- `pc_map_get`. -/
def requestsGet (w : World) (id : ℕ) : Option TcpReq := w.requests.lookup id

/-- `pc_map_del`: unlink the first pair with this key. -/
def requestsDel (id : ℕ) (w : World) : World :=
  { w with requests := w.requests.eraseP fun kv => kv.1 = id }

/-- The pair that `pc_map_clear` unlinks next: the first of the first bucket that is not
empty. -/
def requestsFirst (w : World) : Option (ℕ × TcpReq) :=
  (List.range requestsCapacity).findSome? fun i =>
    w.requests.find? fun kv => requestBucket kv.1 = i

/-- `pc_map_clear`, with the release callback of the map: each pair is unlinked and then
handed over. The callback may come back and clear what is left, so the number of pairs
bounds the rounds. -/
def requestsClear (release : TcpReq → World → World) : ℕ → World → World
  | 0, w => w
  | n + 1, w =>
    match requestsFirst w with
    | none => w
    | some (id, req) => (release req (requestsDel id w)).andThen (requestsClear release n)

/-! ## Calls into the library -/

/-- `pc__async_write` for a request that has got its id; the caller sees only whether
it was accepted. -/
def asyncWrite (type : ReqType) (id : ℕ) (route : Bytes) (msg : Option Json) (w : World) : World :=
  match w.transport with
  | none => w
  | some t =>
    if ¬ w.working t then w
    -- the route, the async, `uv_async_init`, `uv_async_send`
    else if ¬ w.outcome then w.called
    else if ¬ w.called.outcome then w.called.called
    else if ¬ w.called.called.outcome then w.called.called.called
    else if ¬ w.called.called.called.outcome then w.called.called.called.called
    else
      let w := w.called.called.called.called
      let req : TcpReq := ⟨w.nextSerial, type, id, t, cString route, msg⟩
      { w with asyncs := w.asyncs ++ [req], nextSerial := w.nextSerial + 1 }.note (.accepted req)

/-- `pc_request`. -/
def pcRequest (route : Bytes) (msg : Option Json) (w : World) : World :=
  if w.state ≠ .working then w
  else
    let id := (w.reqId + 1) % 2 ^ 32
    asyncWrite .request id route msg { w with reqId := id }

/-- `pc_notify`. -/
def pcNotify (route : Bytes) (msg : Option Json) (w : World) : World :=
  if w.state ≠ .working then w else asyncWrite .notify 0 route msg w

/-- The locked part of `pc_client_disconnect`. -/
def disconnectSet (w : World) : World :=
  { w with state := .disconnecting }.note (.disconnect w.resetting)

/-- `uv_async_send(client->close_async)`. -/
def disconnectSend (w : World) : World :=
  if w.closeAsync then { w with closeSent := true }.note (.closeSend true)
  else (w.note (.closeSend false)).halt .crash

/-- `pc_proto_copy`. -/
def protoCopy (version client server : Option Json) (w : World) : World :=
  { w with
    protoVer := version
    tables := { w.tables with clientProtos := client, serverProtos := server } }.note
      (.copied version server client)

/-! ## Ending a connection -/

/-- The last part of `pc_client_stop`: the client is closed for good. -/
def clientClose (cfg : Config) (w : World) : World :=
  let w := dropTransport { w with state := .closed }
  let w := { w with
    heartbeat := if w.heartbeatTimer.isSome then 0 else w.heartbeat
    heartbeatTimer := none
    timeout := if w.timeoutTimer.isSome then 0 else w.timeout
    timeoutTimer := none
    handshakeTimer := none
    closeAsync := false
    reconnectTimer := if cfg.enableReconnect then uvTimerStop w.reconnectTimer else w.reconnectTimer
    reconnectClosed := w.reconnectClosed || cfg.enableReconnect }
  w.note .closed

/-- `pc_client_stop`, up to what it does to reconnect. -/
def stopWith (cfg : Config) (reconnect : World → World) (w : World) : World :=
  let w := w.note (.stop w.state w.reconnecting)
  if cfg.enableReconnect ∧ w.state ≠ .disconnecting then
    if w.reconnecting then w else reconnect w
  else if w.state = .inited then { w with state := .closed }
  else if w.state = .closed then w
  else clientClose cfg w

/-- One call from a callback. -/
def userActWith (cfg : Config) (reconnect : World → World) (w : World) : UserAct → World
  | .stop => stopWith cfg reconnect w
  | .disconnect => disconnectSend (disconnectSet w)
  | .request route msg => pcRequest route msg w
  | .notify route msg => pcNotify route msg w
  | .protoCopy version client server => protoCopy version client server w

/-- A callback of the user runs: the event is recorded, then its calls are made. -/
def callbackWith (cfg : Config) (reconnect : World → World) (e : Event) (w : World) : World :=
  (cfg.react (e :: w.trace)).foldl
    (fun w act => w.andThen (userActWith cfg reconnect · act)) (w.note e)

/-- `pc__release_requests`, as the reset runs it. The client is `reconnecting` by then, so
`pc_client_stop` called from here does not reset it once more. -/
def releaseInReset (cfg : Config) (req : TcpReq) (w : World) : World :=
  callbackWith cfg id (.requestCb req.serial (-1)) w

/-- The timers that `pc__client_reconnect_reset` stops. The handshake timer keeps running:
the timeout timer is stopped in its place. -/
def stopTimers (w : World) : World :=
  { w with
    heartbeat := if w.heartbeatTimer.isSome then 0 else w.heartbeat
    heartbeatTimer := w.heartbeatTimer.map uvTimerStop
    timeout := if w.timeoutTimer.isSome then 0 else w.timeout
    timeoutTimer := w.timeoutTimer.map uvTimerStop }

/-- The fields it clears after the requests. -/
def resetFields (w : World) : World :=
  { w with
    pkgParser := pkgParserReset w.pkgParser
    handshakeOpts := none
    tables := ⟨none, none, none, none⟩ }

/-- `pc__client_reconnect_reset`. -/
def clientReconnectReset (cfg : Config) (w : World) : World :=
  let w := stopTimers (dropTransport { w with resetting := true })
  (requestsClear (releaseInReset cfg) w.requests.length w).andThen fun w =>
    { resetFields w with state := .inited, resetting := false }

/-- `pc__client_reconnect`. -/
def clientReconnect (cfg : Config) (w : World) : World :=
  (clientReconnectReset cfg { w with reconnecting := true }).andThen fun w =>
    { w with reconnects := w.reconnects + 1, reconnectTimer := ⟨true, 0⟩ }.note
      (.reset (reconnectBase cfg.reconnectSettings (w.reconnects + 1)))

/-- `pc_client_stop`. -/
def clientStop (cfg : Config) (w : World) : World := stopWith cfg (clientReconnect cfg) w

/-- Report a failure and stop. -/
def failWith (cfg : Config) (f : Failure) (w : World) : World :=
  clientStop cfg (w.note (.failure f))

/-! ## Callbacks -/

/-- One call from the user. -/
def userAct (cfg : Config) (w : World) (act : UserAct) : World :=
  userActWith cfg (clientReconnect cfg) w act

/-- A callback of the user. -/
def callback (cfg : Config) (e : Event) (w : World) : World :=
  callbackWith cfg (clientReconnect cfg) e w

/-- `pc__release_requests`. -/
def releaseRequest (cfg : Config) (req : TcpReq) (w : World) : World :=
  callback cfg (.requestCb req.serial (-1)) w

/-- `pc_map_set`. The scan re-initialises the pair it unlinks, so its next turn is at
the same pair again; the loop ends only because the bucket has become empty. -/
def requestsSet (cfg : Config) (req : TcpReq) (w : World) : World :=
  if ¬ w.outcome then w.called
  else if ¬ w.called.outcome then w.called.called
  else
    let w := w.called.called
    match requestsGet w req.id with
    | none => { w with requests := w.requests ++ [(req.id, req)] }
    | some old =>
      let w := requestsDel req.id w
      if w.requests.any fun kv => requestBucket kv.1 = requestBucket req.id then w.halt .hang
      else releaseRequest cfg old { w with requests := w.requests ++ [(req.id, req)] }

/-- `pc_emit_event`. -/
def emitEvent (cfg : Config) (event : String) (w : World) : World :=
  callback cfg (.emitted (utf8Bytes event)) w

/-- `pc__cond_broadcast`: only a thread that already waits is woken. -/
def condBroadcast (w : World) : World :=
  if w.user = .waiting then { w with user := .woken }.note (.broadcast true)
  else w.note (.broadcast false)

/-- The callback of a connect request. -/
def connectCb (cfg : Config) (req : ConnReq) (status : ℤ) (w : World) : World :=
  match req.cb with
  | .user => callback cfg (.connectCb req status) w
  | .connected =>
    let w := w.note (.connectCb req status)
    if status = -1 then clientStop cfg w else condBroadcast w
  | .connect3 =>
    let w := w.note (.connectCb req status)
    if status = -1 then clientStop cfg w else emitEvent cfg "reconnect" w
  | .reconnected =>
    let w := w.note (.connectCb req status)
    let w := { w with reconnecting := false, reconnectTimer := uvTimerStop w.reconnectTimer }
    if status = 0 then emitEvent cfg "reconnect" { w with reconnects := 0 } else clientStop cfg w

end Libpomelo
