import Libpomelo.Network
import Libpomelo.Lts

/-!
# Runs of a client (`client.c`, `thread.c`)

The two threads take turns. A turn of the worker is one handler of the loop, or one
step of the tail of `pc__worker`; a turn of the user's thread is one call, or one part
of a call that the worker can get in between of: `pc_client_disconnect` sets the state
and then sends, `pc_client_connect` waits on the condition, `pc_client_destroy` looks
at the state twice and joins.

`step` is what one turn does, `none` when it cannot be taken. What libuv promises is in
its guards: a callback is delivered once, with status `-1` when its socket was closed
first; a timer fires only while armed; the loop ends only when nothing is left to wait
for. A client is connected before its worker exists: a second `uv_run` on a running
loop is outside of libuv's contract.
-/

namespace Libpomelo

/-- The client as `pc_client_new` or `pc_client_new_with_reconnect` returns it, in a
process with the given request counter and protobuf cache. -/
def World.init (reqId : ℕ) (files : ProtoFiles) : World where
  state := .inited
  transport := none
  requests := []
  pkgParser := pkgParserNew
  heartbeat := 0
  timeout := 0
  handshakeOpts := none
  connReq := none
  tables := ⟨none, none, none, none⟩
  protoVer := none
  heartbeatTimer := some ⟨false, 0⟩
  timeoutTimer := some ⟨false, 0⟩
  handshakeTimer := some ⟨false, 0⟩
  closeAsync := true
  reconnectTimer := ⟨false, 0⟩
  reconnectClosed := false
  reconnects := 0
  reconnecting := false
  host := false
  transports := []
  connects := []
  writes := []
  asyncs := []
  closeSent := false
  reading := none
  resetting := false
  worker := .none
  user := .idle
  reqId := reqId
  nextSerial := 0
  nextConn := 0
  files := files
  supply := []
  trace := []
  halted := none

/-- The public functions that connect. -/
inductive ConnectCall : Type where
  /-- `pc_client_connect` -/
  | connect
  /-- `pc_client_connect2` -/
  | connect2
  /-- `pc_client_connect3` -/
  | connect3
  /-- `pc_client_connect4` -/
  | connect4
  deriving DecidableEq, Repr

/-- One turn of one of the threads. -/
inductive Label : Type where
  /-- the user calls one of the connect functions -/
  | connect (call : ConnectCall)
  /-- the user's thread starts to wait in `pc_client_connect` -/
  | condWait
  /-- `pc_client_connect` returns -/
  | connectReturn
  /-- the user calls `pc_client_stop`, `pc_request`, `pc_notify` or `pc_proto_copy` -/
  | call (act : UserAct)
  /-- the locked part of `pc_client_disconnect` -/
  | disconnectSet
  /-- the rest of it -/
  | disconnectSend
  /-- `pc_client_join` returns -/
  | join
  /-- the next part of `pc_client_destroy` -/
  | destroy
  /-- a TCP connect has its result -/
  | tcpConnect (i : ℕ) (ok : Bool)
  /-- a write has completed -/
  | writeDone (i : ℕ) (ok : Bool)
  /-- the async of a request or notify fires -/
  | asyncWrite (i : ℕ)
  /-- the read callback of a transport -/
  | tcpRead (t : ℕ) (ms : List Bool) (nread : Nread)
  /-- the heartbeat timer fires -/
  | heartbeatTimer
  /-- the timeout timer fires -/
  | timeoutTimer
  /-- the handshake timer fires -/
  | handshakeTimer
  /-- the reconnect timer fires -/
  | reconnectTimer
  /-- the message of `close_async` is handled -/
  | closeAsync
  /-- `uv_run` returns -/
  | loopEnd
  /-- the next part of the tail of `pc__worker` -/
  | workerTail

/-! ## The user's thread -/

/-- The callback that a connect function passes on. -/
def ConnectCall.cb : ConnectCall → ConnectCb
  | .connect => .connected
  | .connect2 => .user
  | .connect3 | .connect4 => .connect3

/-- What precedes `pc_connect`: the resolver and the allocation of the connect request. -/
def connectPrepare (call : ConnectCall) (w : World) : World × Bool :=
  match call with
  | .connect2 => (w, true)
  | .connect | .connect3 => connectReqNew w
  | .connect4 => if ¬ w.outcome then (w.called, false) else connectReqNew { w.called with host := true }

/-- A connect function up to the point where its caller waits or goes on; the worker is
created once `pc_connect` has accepted. -/
def clientConnect (call : ConnectCall) (w : World) : World :=
  match connectPrepare call w with
  | (w, false) => w
  | (w, true) =>
    match pcConnect call.cb w with
    | (w, false) => w
    | (w, true) =>
      { w with worker := .looping, user := if call = .connect then .connectWait else .idle }

/-- `pc_client_join` on the thread it waits for; `none` while the thread runs. Joining a
thread that was never created is undefined. -/
def clientJoin (w : World) : Option World :=
  match w.worker with
  | .none => some (w.halt .crash)
  | .exited | .joined => some ({ w with worker := .joined }.note .joined)
  | _ => none

/-- `pc__client_clear` and `free`. -/
def clientFree (cfg : Config) (w : World) : World :=
  (requestsClear (releaseRequest cfg) w.requests.length w).andThen fun w =>
    { w with
      pkgParser := pkgParserClose w.pkgParser
      handshakeOpts := none
      tables := ⟨none, none, none, none⟩
      protoVer := none
      host := false
      user := .freed }

/-- The next part of `pc_client_destroy`. The state is read without the lock, once for
each comparison. -/
def clientDestroy (cfg : Config) (w : World) : Option World :=
  match w.user with
  | .idle => some { w with user := if w.state = .inited then .destroyFinally else .destroyNotInited }
  | .destroyNotInited =>
    some { w with user := if w.state = .closed then .destroyFinally else .destroyOpen }
  | .destroyOpen => some { disconnectSet w with user := .destroyDisconnecting }
  | .destroyDisconnecting => some { disconnectSend w with user := .destroyJoin }
  | .destroyJoin => (clientJoin w).map fun w => { w with user := .destroyFinally }
  | .destroyFinally => some (clientFree cfg w)
  | _ => none

/-- A turn of the user's thread. -/
def userStep (cfg : Config) (w : World) : Label → Option World
  | .connect call => if w.user = .idle ∧ w.worker = .none then some (clientConnect call w) else none
  | .condWait => if w.user = .connectWait then some { w with user := .waiting } else none
  | .connectReturn => if w.user = .woken then some { w with user := .idle } else none
  | .call .disconnect => none
  | .call act => if w.user = .idle then some (userAct cfg w act) else none
  | .disconnectSet =>
    if w.user = .idle then some { disconnectSet w with user := .disconnecting } else none
  | .disconnectSend =>
    if w.user = .disconnecting then some { disconnectSend w with user := .idle } else none
  | .join => if w.user = .idle then clientJoin w else none
  | .destroy => clientDestroy cfg w
  | _ => none

/-! ## The worker -/

/-- Nothing keeps the loop alive. -/
def loopIdle (w : World) : Bool :=
  !w.closeAsync && w.connects.isEmpty && w.writes.isEmpty && w.asyncs.isEmpty &&
    w.transports.all (· ≠ .working) && !(w.heartbeatTimer.any Timer.active) &&
    !(w.timeoutTimer.any Timer.active) && !(w.handshakeTimer.any Timer.active) &&
    (!w.reconnectTimer.active || w.reconnectClosed)

/-- libuv may deliver this status: a closed socket only gets `-1`. -/
def deliverable (w : World) (t : ℕ) (ok : Bool) : Bool := !(ok && w.transports[t]? = some .closed)

/-- A handler of the loop. -/
def loopStep (cfg : Config) (w : World) : Label → Option World
  | .tcpConnect i ok =>
    match w.connects[i]? with
    | some (t, req) =>
      if deliverable w t ok then
        some (onTcpConnect cfg t req (uvStatus ok) { w with connects := w.connects.eraseIdx i })
      else none
    | none => none
  | .writeDone i ok =>
    match w.writes[i]? with
    | some write =>
      if deliverable w write.transport ok then
        some (writeCb cfg write (uvStatus ok) { w with writes := w.writes.eraseIdx i })
      else none
    | none => none
  | .asyncWrite i =>
    match w.asyncs[i]? with
    | some req => some (asyncWriteCb cfg req { w with asyncs := w.asyncs.eraseIdx i })
    | none => none
  | .tcpRead t ms nread => some (tpOnTcpRead cfg t ms nread w)
  | .heartbeatTimer =>
    if w.heartbeatTimer.any Timer.active then
      some (heartbeatCb cfg { w with heartbeatTimer := w.heartbeatTimer.map uvTimerFired })
    else none
  | .timeoutTimer =>
    if w.timeoutTimer.any Timer.active then
      some (timeoutCb cfg { w with timeoutTimer := w.timeoutTimer.map uvTimerFired })
    else none
  | .handshakeTimer =>
    if w.handshakeTimer.any Timer.active then
      some (handshakeTimeoutCb cfg { w with handshakeTimer := w.handshakeTimer.map uvTimerFired })
    else none
  | .reconnectTimer =>
    if w.reconnectTimer.active then
      some (clientReconnectTimerCb cfg { w with reconnectTimer := uvTimerFired w.reconnectTimer })
    else none
  | .closeAsync =>
    if w.closeAsync ∧ w.closeSent then
      some ((clientStop cfg { w with closeSent := false }).andThen (World.note .closeHandled))
    else none
  | .loopEnd => if loopIdle w then some { w with worker := .ended, state := .closed } else none
  | _ => none

/-- The tail of `pc__worker`. -/
def workerTail (cfg : Config) (w : World) : Option World :=
  match w.worker with
  | .ended => some { emitEvent cfg "disconnect" w with worker := .emitted }
  | .emitted => some { condBroadcast w with worker := .exited }
  | _ => none

/-- One turn of one of the threads, with the given outcomes of the calls that can fail. -/
def step (cfg : Config) (supply : List Bool) (l : Label) (w : World) : Option World :=
  if w.halted.isSome ∨ w.user = .freed then none
  else
    let w := { w with supply := supply }
    match userStep cfg w l with
    | some w' => some w'
    | none =>
      match l with
      | .workerTail => workerTail cfg w
      | l => if w.worker = .looping then loopStep cfg w l else none

/-! ## Runs -/

/-- The client as a transition system; a label comes with the outcomes of the calls
that can fail. -/
def clientLts (cfg : Config) : Lts World (List Bool × Label) where
  init w := ∃ reqId files, reqId < 2 ^ 32 ∧ w = .init reqId files
  step w l w' := step cfg l.1 l.2 w = some w'

/-- The states a client can get into. -/
def Reachable (cfg : Config) (w : World) : Prop := (clientLts cfg).Reach (fun _ _ _ => True) w

/-- Take turn after turn. -/
def runSteps (cfg : Config) : List (List Bool × Label) → World → Option World
  | [], w => some w
  | (supply, l) :: ls, w =>
    match step cfg supply l w with
    | some w' => runSteps cfg ls w'
    | none => none

/-- Every turn of this run meets the condition. -/
def RunMeets (cfg : Config) (ok : World → List Bool × Label → World → Prop) :
    List (List Bool × Label) → World → Prop
  | [], _ => True
  | l :: ls, w => ∀ w' ∈ step cfg l.1 l.2 w, ok w l w' ∧ RunMeets cfg ok ls w'

instance RunMeets.decidable (cfg : Config) (ok : World → List Bool × Label → World → Prop)
    [∀ w l w', Decidable (ok w l w')] :
    ∀ ls w, Decidable (RunMeets cfg ok ls w)
  | [], _ => .isTrue trivial
  | l :: ls, w =>
    match h : step cfg l.1 l.2 w with
    | none => .isTrue fun w' hw' => absurd (h.symm.trans hw') (by simp)
    | some w' =>
      have := RunMeets.decidable cfg ok ls w'
      decidable_of_iff (ok w l w' ∧ RunMeets cfg ok ls w')
        ⟨fun hok w₁ hw₁ => Option.some.inj (h.symm.trans hw₁) ▸ hok, fun hok => hok w' h⟩

/-- What taking turn after turn reaches is reachable by such turns. -/
theorem reach_of_runSteps {cfg : Config} {ok : World → List Bool × Label → World → Prop} :
    ∀ (ls : List (List Bool × Label)) {w w' : World}, (clientLts cfg).Reach ok w →
      RunMeets cfg ok ls w → runSteps cfg ls w = some w' → (clientLts cfg).Reach ok w' := by
  intro ls
  induction ls with
  | nil =>
    intro w w' hw _ hrun
    obtain rfl := Option.some.inj hrun
    exact hw
  | cons l ls ih =>
    intro w w' hw hok hrun
    rw [runSteps] at hrun
    rcases hstep : step cfg l.1 l.2 w with _ | w₁
    · rw [hstep] at hrun
      exact absurd hrun (by simp)
    · rw [hstep] at hrun
      obtain ⟨hl, hls⟩ := hok w₁ hstep
      exact ih (.step hw hstep hl) hls hrun

/-- The same for a run that goes on from another state. -/
theorem run_of_runSteps {cfg : Config} {ok : World → List Bool × Label → World → Prop} {w₀ : World} :
    ∀ (ls : List (List Bool × Label)) {w w' : World}, (clientLts cfg).Run ok w₀ w →
      RunMeets cfg ok ls w → runSteps cfg ls w = some w' → (clientLts cfg).Run ok w₀ w' := by
  intro ls
  induction ls with
  | nil =>
    intro w w' hw _ hrun
    obtain rfl := Option.some.inj hrun
    exact hw
  | cons l ls ih =>
    intro w w' hw hok hrun
    rw [runSteps] at hrun
    rcases hstep : step cfg l.1 l.2 w with _ | w₁
    · rw [hstep] at hrun
      exact absurd hrun (by simp)
    · rw [hstep] at hrun
      obtain ⟨hl, hls⟩ := hok w₁ hstep
      exact ih (.step hw hstep hl) hls hrun

theorem runMeets_true {cfg : Config} (ls : List (List Bool × Label)) :
    ∀ w, RunMeets cfg (fun _ _ _ => True) ls w := by
  induction ls with
  | nil => exact fun _ => trivial
  | cons l ls ih => exact fun _ w' _ => ⟨trivial, ih w'⟩

/-! ## A small program

A server that answers with `{"code":200}` or `{}` and a user whose callbacks make no
calls are enough to show runs. -/

/-- `{"code":200}`. -/
def okResponse : Bytes := [123, 34, 99, 111, 100, 101, 34, 58, 50, 48, 48, 125]

/-- `json_dumps`, as far as it is used: requests with an empty body, and the handshake. -/
def plainDumps : Json → Option Bytes
  | .obj [] => some [123, 125]
  | .obj [("sys", _)] =>
    some (utf8Bytes "\x7b\"sys\":\x7b\"type\":\"c\",\"version\":\"0.3.4\"\x7d\x7d")
  | _ => none

/-- `json_loadb`, as far as it is used. -/
def plainLoadb (data : Bytes) : Option Json :=
  if data = okResponse then some (.obj [("code", .int 200)])
  else if data = [123, 125] then some (.obj [])
  else none

/-- A client of this program. -/
def plainConfig (enableReconnect : Bool) : Config :=
  ⟨enableReconnect, ⟨1, 10, false, some 11⟩, false, none, fun _ => [], plainDumps, plainLoadb⟩

/-- A fresh client, with nothing in the protobuf cache. -/
def plainInit : World := .init 0 ⟨none, none, none⟩

theorem reach_plainInit {cfg : Config} {ok : World → List Bool × Label → World → Prop} :
    (clientLts cfg).Reach ok plainInit :=
  .init ⟨0, ⟨none, none, none⟩, by decide, rfl⟩

theorem reachable_of_run {cfg : Config} {ls : List (List Bool × Label)} {w : World}
    (h : runSteps cfg ls plainInit = some w) : Reachable cfg w :=
  reach_of_runSteps ls reach_plainInit (runMeets_true ls plainInit) h

/-- The turns up to the state `WORKING`: connect, the handshake request and its
response, the ack. -/
def plainStart : List (List Bool × Label) :=
  [([], .connect .connect2), ([], .tcpConnect 0 true), ([], .writeDone 0 true),
    ([], .tcpRead 0 [] (.bytes ([1, 0, 0, 12] ++ okResponse))), ([], .writeDone 0 true)]

end Libpomelo
