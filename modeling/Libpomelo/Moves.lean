import Libpomelo.System

/-!
# What a handler can do

Every handler of the loop and every call of the user is a sequence of a few kinds of
moves, each of which touches a handful of fields under a stated condition. This module
says what the moves are (`Move`, and `Link` for those that concern connect requests) and
proves, function by function, that the code does nothing else. Invariants are then
proved move by move, never by unfolding a handler again.

The moves of one handler need not come in the order in which the code makes the changes:
between handlers nobody can look.
-/

namespace Libpomelo

/-- The two worlds differ only in fields that no life-cycle argument reads. -/
def World.Inert (w w' : World) : Prop :=
  w' = { w with
    pkgParser := w'.pkgParser, heartbeat := w'.heartbeat, timeout := w'.timeout
    handshakeOpts := w'.handshakeOpts, tables := w'.tables, protoVer := w'.protoVer
    heartbeatTimer := w'.heartbeatTimer, timeoutTimer := w'.timeoutTimer
    handshakeTimer := w'.handshakeTimer, host := w'.host, reqId := w'.reqId
    files := w'.files, supply := w'.supply }

/-- An inert change, as a rewrite rule: every other field is the one of `w`. -/
theorem World.Inert.eq {w w' : World} (h : w.Inert w') :
    w' = { w with
      pkgParser := w'.pkgParser, heartbeat := w'.heartbeat, timeout := w'.timeout
      handshakeOpts := w'.handshakeOpts, tables := w'.tables, protoVer := w'.protoVer
      heartbeatTimer := w'.heartbeatTimer, timeoutTimer := w'.timeoutTimer
      handshakeTimer := w'.handshakeTimer, host := w'.host, reqId := w'.reqId
      files := w'.files, supply := w'.supply } := h

/-- The event is a heartbeat from the server, or its accepted handshake response. -/
def Event.Answers : Event → Prop
  | .pkg type _ => type = pkgHeartbeat
  | .agreed _ _ => True
  | _ => False

/-- The timeout timer does not run, or nothing does. -/
def World.Answered (w : World) : Prop :=
  w.timeoutTimer.any Timer.active = false ∨ w.halted.isSome = true

/-- `pc_client_disconnect` is between its two parts, in a callback or in the user's thread. -/
def World.Disconnects (w : World) : Prop :=
  w.state = .disconnecting ∨ w.user = .disconnecting ∨ w.user = .destroyDisconnecting

/-- Events that only report, where they may occur; the others come with a change of
state. -/
def Event.Quiet (w : World) : Event → Prop
  | .emitted _ | .handshakeCb | .asyncFired _ _ | .message _ _ | .stop _ _ | .copied _ _ _ => True
  | .timedOut => w.timeoutTimer.any Timer.active = true ∧ w.halted = none
  | .failure f => f = .heartbeatTimeout →
      ∃ newer older, w.trace = newer ++ .timedOut :: older ∧ ∀ e ∈ newer, ¬ e.Answers
  | .writeDone write _ _ _ => write ∈ w.writes
  | .pkg type _ => type = pkgHeartbeat → w.Answered
  | .announced version => version = w.protoVer
  | .agreed transport res => w.Answered ∧ ∀ t, transport = some t →
      ∃ server client, .shook (some t) res server client ∈ w.trace
  | .closeSend isOpen => isOpen = w.closeAsync ∧ w.Disconnects
  | .broadcast heard => heard = true ∨ w.user ≠ .waiting
  | .joined => w.worker = .joined
  | _ => False

/-- What an inert change can be. -/
inductive Change (w : World) : World → Prop where
  /-- no timer, no table and no counter -/
  | other (parser : PkgParser) (heartbeat timeout : ℤ) (opts : Option Json) (host : Bool)
      (supply : List Bool) :
      Change w { w with
        pkgParser := parser, heartbeat := heartbeat, timeout := timeout, handshakeOpts := opts
        host := host, supply := supply }
  /-- `pc_request` takes the next id -/
  | nextId : w.state = .working → Change w { w with reqId := (w.reqId + 1) % 2 ^ 32 }
  /-- the timers are stopped for a reconnect -/
  | stopTimers : Change w (stopTimers w)
  /-- the heartbeat timer fired and no heartbeat is sent -/
  | fireHeartbeat : w.heartbeatTimer.any Timer.active = true →
      Change w { w with heartbeatTimer := w.heartbeatTimer.map uvTimerStop }
  /-- it fired and a heartbeat was sent -/
  | beatSent (write : Write) (rest : List Event) : w.heartbeatTimer.any Timer.active = true →
      w.state = .working → w.transport = some write.transport →
      write.cb = .heartbeatReq → w.trace = .wrote write :: rest →
      Change w { w with
        heartbeatTimer := w.heartbeatTimer.map uvTimerStop
        timeoutTimer := w.timeoutTimer.map uvTimerAgain }
  /-- the timeout timer fired -/
  | fireTimeout : w.timeoutTimer.any Timer.active = true →
      Change w { w with timeoutTimer := w.timeoutTimer.map uvTimerStop }
  /-- `pc__heartbeat` -/
  | beat (timeout heartbeat : Timer) : w.timeoutTimer = some timeout →
      w.heartbeatTimer = some heartbeat →
      Change w { w with
        timeoutTimer := some (uvTimerStop timeout)
        heartbeatTimer := some (uvTimerAgain heartbeat) }
  /-- the handshake timer is stopped -/
  | stopHandshake : Change w { w with handshakeTimer := w.handshakeTimer.map uvTimerStop }
  /-- the handshake timer is started, after the request was queued -/
  | armHandshake : w.handshakeTimer.isSome = true → w.state = .connected ∨ w.state = .working →
      Change w { w with handshakeTimer := some ⟨true, 0⟩ }
  /-- the version to announce is looked up -/
  | loadProtoVer : Change w (loadProtoVer w)
  /-- version and definitions are copied -/
  | copy (version server client : Option Json) (rest : List Event) :
      w.trace = .copied version server client :: rest →
      Change w { w with
        protoVer := version
        tables := { w.tables with clientProtos := client, serverProtos := server } }
  /-- the tables are dropped for a reconnect -/
  | dropTables : Change w (resetFields w)
  /-- everything is freed -/
  | free (parser : PkgParser) :
      Change w { w with
        pkgParser := parser, handshakeOpts := none, tables := ⟨none, none, none, none⟩
        protoVer := none, host := false }

/-- What is written comes at its time: heartbeats from a `WORKING` client whose heartbeat timer
runs, the ack after the response was accepted, a request when its async fires. The handshake
request belongs to the connect (`Link.greet`), and a notify to its async (`Move.sendNotify`). -/
def WriteCb.Due (w : World) (t : ℕ) : WriteCb → Prop
  | .heartbeatReq => w.state = .working ∧ w.heartbeatTimer.any Timer.active = true
  | .handshakeAck => ∃ res, .agreed (some t) res ∈ w.trace
  | .request req => req ∈ w.asyncs ∧ w.working req.transport = true ∧ req.type = .request
  | .handshakeReq | .notify _ => False

/-- The type of the package that is written. -/
def WriteCb.pkgType : WriteCb → ℕ
  | .handshakeReq => pkgHandshake
  | .handshakeAck => pkgHandshakeAck
  | .heartbeatReq => pkgHeartbeat
  | .request _ | .notify _ => pkgData

/-- What is written is a package of this type. Only that of a request or notify may be missing,
where `pc_pkg_encode` could not allocate it. -/
def WriteCb.Packs (cb : WriteCb) (data : Option Bytes) : Prop :=
  ∃ supply body, data = pkgEncode supply cb.pkgType body ∧ body.length < pkgMaxBodyBytes ∧
    (data = none → cb.pkgType = pkgData)

/-- Nothing is owed to a write that leaves the queue: the callback of its request ran, or the write
succeeded, and the request was in the map if the completion found it there. A notify is called back
as its write leaves (`Move.notifyDone`). -/
def WriteCb.Settled (w : World) : WriteCb → Prop
  | .request req => (∃ status, .requestCb req.serial status ∈ w.trace) ∨
      ∃ write listed, write.cb = .request req ∧ .writeDone write 0 true listed ∈ w.trace ∧
        (listed = true → ∃ id r, (id, r) ∈ w.requests ∧ r.serial = req.serial)
  | .notify _ => False
  | _ => True

/-- `pc__client_reconnect_reset` is running. -/
structure World.InReset (w : World) : Prop where
  /-- it is running -/
  resetting : w.resetting = true
  /-- there is no transport -/
  transport : w.transport = none
  /-- the flag is set -/
  reconnecting : w.reconnecting = true

/-- One change a handler makes that leaves the connect requests alone; the flag tells whether
it begins a reset. -/
inductive Move (cfg : Config) : Bool → World → World → Prop where
  /-- fields without a part in the life cycle -/
  | inert {w : World} (w' : World) : w.Inert w' → Change w w' → Move cfg false w w'
  /-- nothing runs from here on -/
  | halt {w : World} (h : Halt) : Move cfg false w (w.halt h)
  /-- a report -/
  | note {w : World} (e : Event) : e.Quiet w → Move cfg false w (w.note e)
  /-- a handshake response with code 200 is processed -/
  | shook {w : World} (w' : World) (t : ℕ) (res : Json) : w.Inert w' → w' = setupSys res w →
      jsonIntegerValue (jsonObjectGet (some res) "code") = handshakeOk → w.reading = some t →
      Move cfg false w (w'.note (.shook w'.transport res w'.tables.serverProtos w'.tables.clientProtos))
  /-- a request or notify is accepted -/
  | accept {w : World} (req : TcpReq) : req.serial = w.nextSerial →
      w.transport = some req.transport → w.working req.transport →
      (req.type = .request ∧ req.id = w.reqId ∨ req.type = .notify ∧ req.id = 0) →
      w.state = .working → Move cfg false w ({ w with asyncs := w.asyncs ++ [req], nextSerial := w.nextSerial + 1 }.note
        (.accepted req))
  /-- a write is queued on the current transport -/
  | queueWrite {w : World} (cb : WriteCb) (t : ℕ) (data : Option Bytes) : w.transport = some t →
      cb.Due w t → cb.Packs data → Move cfg false w (queueWrite cb t data w)
  /-- a write leaves the queue -/
  | popWrite {w : World} (i : ℕ) (write : Write) : w.writes[i]? = some write →
      write.cb.Settled w → Move cfg false w { w with writes := w.writes.eraseIdx i }
  /-- an async is done without a callback: its request is written, or nothing runs any more -/
  | popAsync {w : World} (i : ℕ) (req : TcpReq) : w.asyncs[i]? = some req →
      (w.halted ≠ none ∨ req.type = .request ∧ ∃ write ∈ w.writes, write.cb = .request req) →
      Move cfg false w { w with asyncs := w.asyncs.eraseIdx i }
  /-- an async ends in a request callback -/
  | asyncRequestCb {w : World} (i : ℕ) (req : TcpReq) (status : ℤ) : w.asyncs[i]? = some req →
      (status = -1 ∨ status = 0 ∧ .asyncFired req false ∈ w.trace) → req.type = .request →
      Move cfg false w ({ w with asyncs := w.asyncs.eraseIdx i }.note (.requestCb req.serial status))
  /-- an async ends in a notify callback -/
  | asyncNotifyCb {w : World} (i : ℕ) (req : TcpReq) (status : ℤ) : w.asyncs[i]? = some req →
      (status = -1 ∨ status = 0 ∧ .asyncFired req false ∈ w.trace) → req.type = .notify →
      Move cfg false w ({ w with asyncs := w.asyncs.eraseIdx i }.note (.notifyCb req.serial status))
  /-- a notify is written when its async fires -/
  | sendNotify {w : World} (i t : ℕ) (data : Option Bytes) (req : TcpReq) :
      w.asyncs[i]? = some req → w.working req.transport → w.transport = some t →
      WriteCb.Packs (.notify req) data → req.type = .notify →
      Move cfg false w (queueWrite (.notify req) t data { w with asyncs := w.asyncs.eraseIdx i })
  /-- a request whose write was queued goes into the request map -/
  | enlist {w : World} (i t : ℕ) (data : Option Bytes) (req : TcpReq) :
      w.asyncs[i]? = some req → w.working req.transport → w.transport = some t →
      w.reading = none → .wrote ⟨.request req, t, data⟩ ∈ w.trace → req.type = .request →
      Move cfg false w { w with asyncs := w.asyncs.eraseIdx i, requests := w.requests ++ [(req.id, req)] }
  /-- a request leaves the map without a callback, and nothing runs any more -/
  | unlink {w : World} (id : ℕ) : w.halted ≠ none → Move cfg false w (requestsDel id w)
  /-- a request leaves the map with a callback of status `-1` -/
  | release {w : World} (id : ℕ) (req : TcpReq) (before after : List (ℕ × TcpReq)) :
      w.requests = before ++ (id, req) :: after →
      Move cfg false w ({ w with requests := before ++ after }.note (.requestCb req.serial (-1)))
  /-- a message completes the request it names -/
  | respond {w : World} (t : ℕ) (raw : RawMsg) (rest : List Event) (req : TcpReq)
      (before after : List (ℕ × TcpReq)) :
      w.requests = before ++ (raw.id, req) :: after → w.trace = .message raw true :: rest →
      raw.type.hasId → w.reading = some t →
      Move cfg false w ({ w with requests := before ++ after }.note (.requestCb req.serial 0))
  /-- a request write completed on a dead transport: the entry in the map stays -/
  | orphanCb {w : World} (write : Write) (req : TcpReq) (status : ℤ) (listed : Bool) :
      write.cb = .request req → .writeDone write status false listed ∈ w.trace →
      Move cfg false w (w.note (.requestCb req.serial (-1)))
  /-- a failed request write whose request is not in the map any more -/
  | lateCb {w : World} (write : Write) (req : TcpReq) :
      write.cb = .request req → .writeDone write (-1) true false ∈ w.trace →
      Move cfg false w ((requestsDel req.id w).note (.requestCb req.serial (-1)))
  /-- the write of a notify leaves the queue, and the notify is called back -/
  | notifyDone {w : World} (i : ℕ) (write : Write) (req : TcpReq) (done : ℤ) (working listed : Bool)
      (status : ℤ) : w.writes[i]? = some write → write.cb = .notify req →
      (status = -1 ∨ status = 0 ∧ done = 0) →
      Move cfg false w (({ w with writes := w.writes.eraseIdx i }.note
        (.writeDone write done working listed)).note (.notifyCb req.serial status))
  /-- `pc_client_stop` enters `pc__client_reconnect` and the transport is destroyed -/
  | beginReset {w : World} : cfg.enableReconnect = true → w.state ≠ .disconnecting →
      w.reconnecting = false → w.timeoutTimer.any Timer.active = false →
      Move cfg true w { dropTransport w with
        reconnecting := true, resetting := true, trace := .stop w.state false :: w.trace }
  /-- `pc__client_reconnect` returns -/
  | reset {w : World} (delay : Option ℤ) : cfg.enableReconnect = true → w.requests = [] → w.InReset →
      Move cfg false w ({ w with
        state := .inited, resetting := false, reconnects := w.reconnects + 1
        reconnectTimer := ⟨true, 0⟩ }.note (.reset delay))
  /-- the flag is cleared -/
  | clearReconnecting {w : World} : Move cfg false w { w with reconnecting := false }
  /-- a reconnect succeeded -/
  | clearReconnects {w : World} : Move cfg false w { w with reconnects := 0 }
  /-- the reconnect timer fires -/
  | fireTimer {w : World} : w.reconnectTimer.active = true →
      Move cfg false w { w with reconnectTimer := uvTimerFired w.reconnectTimer }
  /-- the reconnect timer is stopped -/
  | stopTimer {w : World} : Move cfg false w { w with reconnectTimer := uvTimerStop w.reconnectTimer }
  /-- a client that never connected is closed -/
  | closeInited {w : World} : cfg.enableReconnect = false → w.state = .inited →
      Move cfg false w { w with state := .closed }
  /-- the client is closed, by a call of `pc_client_stop` -/
  | close {w : World} : (cfg.enableReconnect = true → w.state = .disconnecting) →
      w.state ≠ .inited → w.state ≠ .closed →
      Move cfg false w { dropTransport w with
        state := .closed, closeAsync := false
        heartbeatTimer := none, timeoutTimer := none, handshakeTimer := none
        reconnectTimer :=
          if cfg.enableReconnect then uvTimerStop w.reconnectTimer else w.reconnectTimer
        reconnectClosed := w.reconnectClosed || cfg.enableReconnect
        trace := .closed :: .stop w.state w.reconnecting :: w.trace }
  /-- `pc_client_disconnect` sets the state -/
  | disconnect {w : World} : Move cfg false w (disconnectSet w)
  /-- `close_async` is sent -/
  | sendClose {w : World} : w.closeAsync = true → Move cfg false w { w with closeSent := true }
  /-- the message of `close_async` is taken -/
  | takeClose {w : World} : Move cfg false w { w with closeSent := false }
  /-- it was handled -/
  | closeHandled {w : World} : w.state ≠ .disconnecting →
      (cfg.enableReconnect = true → w.state = .closed → w.closeAsync = false →
        w.reconnectTimer.active = false) →
      Move cfg false w (w.note .closeHandled)
  /-- a blocked `pc_client_connect` is woken -/
  | wake {w : World} : w.user = .waiting → Move cfg false w { w with user := .woken }

/-- Moves that concern connects. -/
inductive Link (cfg : Config) : World → World → Prop where
  /-- any other move -/
  | move {w w' : World} {begins : Bool} : Move cfg begins w w' → Link cfg w w'
  /-- `pc_connect` is entered -/
  | connecting {w : World} : w.state = .inited → Link cfg w { w with state := .connecting }
  /-- the connect request is set or taken -/
  | setConnReq {w : World} (req : Option ConnReq) (n : ℕ) :
      Link cfg w { w with connReq := req, nextConn := n }
  /-- a transport is created whose connect failed at once -/
  | transportNew {w : World} : Link cfg w { w with transports := w.transports ++ [.inited] }
  /-- a TCP connect is under way -/
  | launch {w : World} (req : ConnReq) : w.state = .connecting →
      Link cfg w ({ w with
        transports := w.transports ++ [TransportState.connecting]
        connects := w.connects ++ [(w.transports.length, req)] }.note (.connectAccepted req))
  /-- a TCP connect has its result, too late -/
  | stale {w : World} (i t : ℕ) (req : ConnReq) : w.connects[i]? = some (t, req) →
      w.state ≠ .connecting → Link cfg w { w with connects := w.connects.eraseIdx i }
  /-- it failed, and the transport is destroyed -/
  | refused {w : World} (i t : ℕ) (req : ConnReq) : w.connects[i]? = some (t, req) →
      w.state = .connecting →
      Link cfg w (transportDestroy t { w with connects := w.connects.eraseIdx i })
  /-- it succeeded: the transport becomes current and starts to work -/
  | connected {w : World} (i t : ℕ) (req : ConnReq) : w.connects[i]? = some (t, req) →
      w.state = .connecting → w.transports[t]? ≠ some .closed →
      Link cfg w (transportStart t { w with
        connects := w.connects.eraseIdx i, transport := some t, state := .connected })
  /-- the handshake request is queued -/
  | greet {w : World} (t : ℕ) (data : Bytes) : w.transport = some t →
      WriteCb.handshakeReq.Packs (some data) →
      Link cfg w (queueWrite .handshakeReq t (some data) w)
  /-- a connect callback runs -/
  | connectCb {w : World} (req : ConnReq) (status : ℤ) :
      Link cfg w (w.note (.connectCb req status))
  /-- the ack completed -/
  | acked {w : World} (t : ℕ) (write : Write) (working listed : Bool) : w.working t →
      write.cb = .handshakeAck → write.transport = t →
      .writeDone write 0 working listed ∈ w.trace →
      Link cfg w ({ w with state := .working }.note (.acked w.state))

/-- No reset is left unfinished on the way, unless nothing runs any more. -/
def World.Settled (w w' : World) : Prop :=
  w'.halted = none → w.resetting = false → w'.resetting = false

/-- One move, of either kind. -/
def AnyMove (cfg : Config) (w w' : World) : Prop := ∃ begins, Move cfg begins w w'

/-- A sequence of moves. -/
structure Moves (cfg : Config) (w w' : World) : Prop where
  /-- the moves -/
  seq : Relation.ReflTransGen (AnyMove cfg) w w'
  /-- and each reset they begin is finished -/
  settled : w.Settled w'

/-- A sequence of moves, those on connect requests included. -/
structure Links (cfg : Config) (w w' : World) : Prop where
  /-- the moves -/
  seq : Relation.ReflTransGen (Link cfg) w w'
  /-- and each reset they begin is finished -/
  settled : w.Settled w'

/-- What has stopped running stays so. -/
theorem Move.halted {cfg : Config} {begins : Bool} {w w' : World} (h : Move cfg begins w w')
    (hh : w'.halted = none) : w.halted = none := by
  cases h with
  | inert w' hin _ =>
    rw [hin.eq] at hh
    exact hh
  | shook w' _ _ hin _ _ _ =>
    rw [hin.eq] at hh
    exact hh
  | halt => exact absurd hh (by simp [World.halt])
  | _ => exact hh

/-- A move that begins no reset leaves none unfinished. -/
theorem Move.settled {cfg : Config} {w w' : World} (h : Move cfg false w w')
    (hr : w.resetting = false) : w'.resetting = false := by
  cases h with
  | inert w' hin _ =>
    rw [hin.eq]
    exact hr
  | shook w' _ _ hin _ _ _ =>
    rw [hin.eq]
    exact hr
  | reset => rfl
  | _ => exact hr

/-- Nothing runs behind a crash. -/
theorem Link.halted {cfg : Config} {w w' : World} (h : Link cfg w w') (hh : w'.halted = none) :
    w.halted = none := by
  cases h with
  | move hm => exact hm.halted hh
  | _ => exact hh

namespace Moves

variable {cfg : Config} {w w₁ w₂ w' : World}

theorem refl : Moves cfg w w := ⟨.refl, fun _ h => h⟩

theorem halted (h : Moves cfg w w') (hh : w'.halted = none) : w.halted = none := by
  obtain ⟨hseq, -⟩ := h
  induction hseq with
  | refl => exact hh
  | tail _ hm ih =>
    obtain ⟨_, hm⟩ := hm
    exact ih (hm.halted hh)

theorem trans (h : Moves cfg w w₁) (h' : Moves cfg w₁ w') : Moves cfg w w' :=
  ⟨h.seq.trans h'.seq, fun hh hr => h'.settled hh (h.settled (h'.halted hh) hr)⟩

theorem single (h : Move cfg false w w') : Moves cfg w w' :=
  ⟨.single ⟨_, h⟩, fun _ hr => h.settled hr⟩

theorem head (h : Move cfg false w w₁) (h' : Moves cfg w₁ w') : Moves cfg w w' :=
  (single h).trans h'

theorem tail (h : Moves cfg w w₁) (h' : Move cfg false w₁ w') : Moves cfg w w' :=
  h.trans (single h')

theorem inert (h : w.Inert w') (hc : Change w w') : Moves cfg w w' := single (.inert _ h hc)

/-- Nothing that any argument reads. -/
theorem other (parser : PkgParser) (heartbeat timeout : ℤ) (opts : Option Json) (host : Bool)
    (supply : List Bool) :
    Moves cfg w { w with
      pkgParser := parser, heartbeat := heartbeat, timeout := timeout, handshakeOpts := opts
      host := host, supply := supply } :=
  inert rfl (.other ..)

theorem links (h : Moves cfg w w') : Links cfg w w' := by
  refine ⟨?_, h.settled⟩
  obtain ⟨hseq, -⟩ := h
  induction hseq with
  | refl => exact .refl
  | tail _ hm ih =>
    obtain ⟨_, hm⟩ := hm
    exact ih.tail (.move hm)

/-- The rest of a handler runs only if the program still does. -/
theorem andThen {f : World → World} (h : Moves cfg w (f w)) : Moves cfg w (w.andThen f) := by
  rw [World.andThen]
  split
  · exact .refl
  · exact h

theorem halt (h : Halt) : Moves cfg w (w.halt h) := single (.halt h)

theorem supply (supply : List Bool) : Moves cfg w { w with supply := supply } := other ..

theorem called : Moves cfg w w.called := supply _

end Moves

namespace Links

variable {cfg : Config} {w w₁ w' : World}

theorem refl : Links cfg w w := ⟨.refl, fun _ h => h⟩

theorem halted (h : Links cfg w w') (hh : w'.halted = none) : w.halted = none := by
  obtain ⟨hseq, -⟩ := h
  induction hseq with
  | refl => exact hh
  | tail _ hl ih => exact ih (hl.halted hh)

theorem trans (h : Links cfg w w₁) (h' : Links cfg w₁ w') : Links cfg w w' :=
  ⟨h.seq.trans h'.seq, fun hh hr => h'.settled hh (h.settled (h'.halted hh) hr)⟩

/-- One link in front of others; it begins no reset. -/
theorem head (h : Link cfg w w₁) (hr : w₁.resetting = w.resetting) (h' : Links cfg w₁ w') :
    Links cfg w w' :=
  trans ⟨.single h, fun _ hw => hr.trans hw⟩ h'

theorem andThen {f : World → World} (h : Links cfg w (f w)) : Links cfg w (w.andThen f) := by
  rw [World.andThen]
  split
  · exact .refl
  · exact h

end Links

/-! ## What moves leave alone -/

section Frame

variable {cfg : Config} {begins : Bool} {w w' : World}

/-- The fields that no move changes, and the only change to the user's thread. -/
structure World.Framed (w w' : World) : Prop where
  reading : w'.reading = w.reading
  connReq : w'.connReq = w.connReq
  connects : w'.connects = w.connects
  nextConn : w'.nextConn = w.nextConn
  worker : w'.worker = w.worker
  user : w'.user = w.user ∨ w.user = .waiting ∧ w'.user = .woken

/-- A world is framed by itself. -/
theorem World.Framed.refl (w : World) : w.Framed w := ⟨rfl, rfl, rfl, rfl, rfl, .inl rfl⟩

theorem World.Framed.trans {w₁ w₂ w₃ : World} (h : w₁.Framed w₂) (h' : w₂.Framed w₃) :
    w₁.Framed w₃ := by
  refine ⟨h'.reading.trans h.reading, h'.connReq.trans h.connReq, h'.connects.trans h.connects,
    h'.nextConn.trans h.nextConn, h'.worker.trans h.worker, ?_⟩
  rcases h.user with hu | ⟨hwait, hwoken⟩
  · rw [← hu]
    exact h'.user
  · rcases h'.user with hu' | ⟨hwait', -⟩
    · exact .inr ⟨hwait, hu'.trans hwoken⟩
    · rw [hwoken] at hwait'
      exact absurd hwait' (by decide)

/-- No single move leaves the frame. -/
theorem Move.framed (h : Move cfg begins w w') : w.Framed w' := by
  cases h with
  | inert w' hin _ =>
    rw [hin.eq]
    exact ⟨rfl, rfl, rfl, rfl, rfl, .inl rfl⟩
  | shook w' _ _ hin _ _ _ =>
    rw [hin.eq]
    exact ⟨rfl, rfl, rfl, rfl, rfl, .inl rfl⟩
  | wake hwait => exact ⟨rfl, rfl, rfl, rfl, rfl, .inr ⟨hwait, rfl⟩⟩
  | _ => exact ⟨rfl, rfl, rfl, rfl, rfl, .inl rfl⟩

/-- By induction on the moves. -/
theorem Moves.framed (h : Moves cfg w w') : w.Framed w' := by
  obtain ⟨hseq, -⟩ := h
  induction hseq with
  | refl => exact .refl w
  | tail _ hm ih =>
    obtain ⟨_, hm⟩ := hm
    exact ih.trans hm.framed

/-- Events are only added. -/
theorem Move.trace_suffix (h : Move cfg begins w w') : w.trace <:+ w'.trace := by
  cases h with
  | inert w' hin _ => rw [hin.eq]
  | shook w' _ _ hin _ _ _ =>
    rw [hin.eq]
    exact List.suffix_cons _ _
  | note | accept | queueWrite | asyncRequestCb | asyncNotifyCb | sendNotify | release | respond
  | orphanCb | lateCb | beginReset | reset | disconnect | closeHandled => exact List.suffix_cons _ _
  | notifyDone | close => exact (List.suffix_cons _ _).trans (List.suffix_cons _ _)
  | _ => exact List.suffix_rfl

/-- Events are only added. -/
theorem Moves.trace_suffix (h : Moves cfg w w') : w.trace <:+ w'.trace := by
  obtain ⟨hseq, -⟩ := h
  induction hseq with
  | refl => exact List.suffix_rfl
  | tail _ hm ih =>
    obtain ⟨_, hm⟩ := hm
    exact ih.trans hm.trace_suffix

theorem Link.trace_suffix (h : Link cfg w w') : w.trace <:+ w'.trace := by
  cases h with
  | move hm => exact hm.trace_suffix
  | launch | greet | connectCb | acked => exact List.suffix_cons _ _
  | _ => exact List.suffix_rfl

theorem Links.trace_suffix (h : Links cfg w w') : w.trace <:+ w'.trace := by
  obtain ⟨hseq, -⟩ := h
  induction hseq with
  | refl => exact List.suffix_rfl
  | tail _ hm ih => exact ih.trans hm.trace_suffix

/-- The current transport can only go away. -/
theorem Move.transport {t : ℕ} (h : Move cfg begins w w') (ht : w'.transport = some t) :
    w.transport = some t := by
  cases h with
  | inert w' hin _ =>
    rw [hin.eq] at ht
    exact ht
  | shook w' _ _ hin _ _ _ =>
    rw [hin.eq] at ht
    exact ht
  | beginReset | close => exact absurd ht (by simp [dropTransport])
  | _ => exact ht

theorem Moves.transport {t : ℕ} (h : Moves cfg w w') (ht : w'.transport = some t) :
    w.transport = some t := by
  obtain ⟨hseq, -⟩ := h
  induction hseq with
  | refl => exact ht
  | tail _ hm ih =>
    obtain ⟨_, hm⟩ := hm
    exact ih (hm.transport ht)

end Frame

/-! ## Calls -/

section Calls

variable {cfg : Config}

/-- **`pc__async_write`** uses up outcomes, or accepts the request for the current transport. -/
inductive AsyncWrite (type : ReqType) (id : ℕ) (route : Bytes) (msg : Option Json) (w : World) :
    World → Prop where
  /-- it returns `-1` -/
  | failed (supply : List Bool) : AsyncWrite type id route msg w { w with supply := supply }
  /-- the async is on its way -/
  | accepted (t : ℕ) (supply : List Bool) (req : TcpReq) : w.transport = some t →
      w.working t = true → req = ⟨w.nextSerial, type, id, t, cString route, msg⟩ →
      AsyncWrite type id route msg w ({ w with
        supply := supply, asyncs := w.asyncs ++ [req], nextSerial := w.nextSerial + 1 }.note
          (.accepted req))

theorem asyncWrite_cases (type : ReqType) (id : ℕ) (route : Bytes) (msg : Option Json) (w : World) :
    AsyncWrite type id route msg w (asyncWrite type id route msg w) := by
  have hcalled : ∀ supply, ({ w with supply := supply } : World).called =
      { w with supply := (malloc supply).2 } := fun _ => rfl
  rw [asyncWrite]
  simp only [show w.called = { w with supply := (malloc w.supply).2 } from rfl, hcalled]
  split
  · exact .failed w.supply
  · next t ht =>
    split
    · exact .failed w.supply
    · next hwork =>
      have hwork' : w.working t = true := by simpa using hwork
      -- the four calls that can fail
      split
      · exact .failed _
      split
      · exact .failed _
      split
      · exact .failed _
      split
      · exact .failed _
      exact .accepted t _ _ ht hwork' rfl

/-- `pc__async_write` accepts a request or gives up. -/
theorem moves_asyncWrite (type : ReqType) (id : ℕ) (route : Bytes) (msg : Option Json)
    (w : World) (hid : type = .request ∧ id = w.reqId ∨ type = .notify ∧ id = 0)
    (hst : w.state = .working) : Moves cfg w (asyncWrite type id route msg w) := by
  have hcases := asyncWrite_cases type id route msg w
  generalize asyncWrite type id route msg w = w' at hcases ⊢
  cases hcases with
  | failed supply => exact Moves.supply supply
  | accepted t supply req ht hwork hreq =>
    subst hreq
    exact (Moves.supply supply).tail (.accept _ rfl ht hwork hid hst)

theorem moves_pcRequest (route : Bytes) (msg : Option Json) (w : World) :
    Moves cfg w (pcRequest route msg w) := by
  rw [pcRequest]
  split
  · exact .refl
  · next hst =>
    have hst' : w.state = .working := by simpa using hst
    refine .head (.inert { w with reqId := (w.reqId + 1) % 2 ^ 32 } rfl (.nextId hst')) ?_
    exact moves_asyncWrite _ _ _ _ _ (.inl ⟨rfl, rfl⟩) hst'

theorem moves_pcNotify (route : Bytes) (msg : Option Json) (w : World) :
    Moves cfg w (pcNotify route msg w) := by
  rw [pcNotify]
  split
  · exact .refl
  · next hst => exact moves_asyncWrite _ _ _ _ _ (.inr ⟨rfl, rfl⟩) (by simpa using hst)

/-- The async of a client that disconnects is sent. -/
theorem moves_disconnectSend {w : World} (hw : w.Disconnects) :
    Moves cfg w (disconnectSend w) := by
  rw [disconnectSend]
  split
  · next h => exact .head (.sendClose h) (.single (.note (.closeSend true) ⟨h.symm, hw⟩))
  · next h =>
    refine .head (.note (.closeSend false) ⟨?_, hw⟩) (Moves.halt _)
    exact (Bool.eq_false_iff.mpr h).symm

theorem moves_protoCopy (version client server : Option Json) (w : World) :
    Moves cfg w (protoCopy version client server w) := by
  refine .head (.note (.copied version server client) trivial) ?_
  exact Moves.inert rfl (.copy version server client w.trace rfl)

/-- `pc_client_close` of a client that may close. -/
theorem moves_clientClose {w : World} (hcfg : cfg.enableReconnect = true → w.state = .disconnecting)
    (hinit : w.state ≠ .inited) (hclosed : w.state ≠ .closed) :
    Moves cfg w (clientClose cfg (w.note (.stop w.state w.reconnecting))) :=
  .head (.close hcfg hinit hclosed) (Moves.other ..)

/-- **Stopping is a sequence of moves**, if the way it reconnects is. -/
theorem moves_stopWith {reconnect : World → World} {w : World}
    (hrec : cfg.enableReconnect = true → w.state ≠ .disconnecting → w.reconnecting = false →
      Moves cfg w (reconnect (w.note (.stop w.state false)))) :
    Moves cfg w (stopWith cfg reconnect w) := by
  rw [stopWith]
  have hnote : Moves cfg w (w.note (.stop w.state w.reconnecting)) := Moves.single (.note _ trivial)
  split
  · next h =>
    split
    · exact hnote
    · next hno =>
      have hno' : w.reconnecting = false := by simpa [World.note] using hno
      rw [hno']
      exact hrec h.1 h.2 hno'
  · next h =>
    have hcfg : cfg.enableReconnect = true → w.state = .disconnecting := by
      intro hc
      by_contra hne
      exact h ⟨hc, hne⟩
    split
    · next hst =>
      have hst' : w.state = .inited := hst
      refine hnote.tail (.closeInited ?_ hst)
      by_contra hc
      rw [hcfg (by simpa using hc)] at hst'
      exact absurd hst' (by decide)
    · split
      · exact hnote
      · next hinit hclosed => exact moves_clientClose hcfg hinit hclosed

/-- The calls from inside a callback, with any reconnect that moves. -/
theorem moves_userActWith {reconnect : World → World} (act : UserAct) {w : World}
    (hrec : cfg.enableReconnect = true → w.state ≠ .disconnecting → w.reconnecting = false →
      Moves cfg w (reconnect (w.note (.stop w.state false)))) :
    Moves cfg w (userActWith cfg reconnect w act) := by
  cases act with
  | stop => exact moves_stopWith hrec
  | disconnect => exact .head .disconnect (moves_disconnectSend (.inl rfl))
  | request route msg => exact moves_pcRequest route msg w
  | notify route msg => exact moves_pcNotify route msg w
  | protoCopy version client server => exact moves_protoCopy version client server w

end Calls

/-! ## Ending a connection -/

section Stop

variable {cfg : Config}

/-- The pair unlinked next is the first one with its key. -/
theorem requestsFirst_split {w : World} {id : ℕ} {req : TcpReq}
    (h : requestsFirst w = some (id, req)) :
    ∃ before after, w.requests = before ++ (id, req) :: after ∧
      requestsDel id w = { w with requests := before ++ after } := by
  obtain ⟨i, -, hfind⟩ := List.exists_of_findSome?_eq_some h
  obtain ⟨hbucket, before, after, hsplit, hbefore⟩ := List.find?_eq_some_iff_append.mp hfind
  refine ⟨before, after, hsplit, ?_⟩
  have hne : ∀ kv ∈ before, ¬ (decide (kv.1 = id) = true) := by
    intro kv hkv hid
    have hsame : kv.1 = id := by simpa using hid
    have hother := hbefore kv hkv
    rw [hsame] at hother
    rw [hbucket] at hother
    exact absurd hother (by decide)
  rw [requestsDel, hsplit, List.eraseP_append_right _ hne, List.eraseP_cons_of_pos (by simp)]

/-- While there is a pair, there is a next one. -/
theorem requestsFirst_eq_none {w : World} (h : requestsFirst w = none) : w.requests = [] := by
  refine List.eq_nil_iff_forall_not_mem.mpr fun kv hkv => ?_
  have hlt : requestBucket kv.1 < requestsCapacity := Nat.mod_lt _ (by decide)
  have hnone := List.findSome?_eq_none_iff.mp h (requestBucket kv.1) (List.mem_range.mpr hlt)
  have hno := List.find?_eq_none.mp hnone kv hkv
  exact hno (by simp)

/-- **Clearing the map** keeps what each release keeps. -/
theorem requestsClear_preserves {P : World → Prop} {release : TcpReq → World → World}
    (hrelease : ∀ (w : World) (id : ℕ) (req : TcpReq) (before after : List (ℕ × TcpReq)), P w →
      w.requests = before ++ (id, req) :: after →
      P (release req { w with requests := before ++ after })) :
    ∀ (n : ℕ) (w : World), P w → P (requestsClear release n w)
  | 0, _, hw => hw
  | n + 1, w, hw => by
    rw [requestsClear]
    split
    · exact hw
    · next id req hfirst =>
      obtain ⟨before, after, hsplit, hdel⟩ := requestsFirst_split hfirst
      have hnext := hrelease w id req before after hw hsplit
      rw [hdel, World.andThen]
      split
      · exact hnext
      · exact requestsClear_preserves hrelease n _ hnext

/-- It empties the map, unless nothing runs any more. -/
theorem requestsClear_requests {release : TcpReq → World → World}
    (hrelease : ∀ req w, (release req w).requests.length ≤ w.requests.length) :
    ∀ (n : ℕ) (w : World), w.requests.length ≤ n →
      (requestsClear release n w).halted.isSome = true ∨ (requestsClear release n w).requests = []
  | 0, w, hlen => .inr (List.length_eq_zero_iff.mp (Nat.le_zero.mp hlen))
  | n + 1, w, hlen => by
    rw [requestsClear]
    split
    · next hfirst => exact .inr (requestsFirst_eq_none hfirst)
    · next id req hfirst =>
      obtain ⟨before, after, hsplit, hdel⟩ := requestsFirst_split hfirst
      rw [hdel, World.andThen]
      split
      · next hhalt => exact .inl hhalt
      · refine requestsClear_requests hrelease n _ (Nat.le_trans (hrelease req _) ?_)
        rw [hsplit] at hlen
        simp only [List.length_append, List.length_cons] at hlen ⊢
        omega

/-- Only these three fields matter. -/
theorem World.InReset.of_eq {w w' : World} (h : w.InReset) (hreset : w'.resetting = w.resetting)
    (htransport : w'.transport = w.transport) (hrec : w'.reconnecting = w.reconnecting) :
    w'.InReset :=
  ⟨hreset.trans h.resetting, htransport.trans h.transport, hrec.trans h.reconnecting⟩

/-- `pc_client_stop` from a callback that the reset runs. -/
theorem World.InReset.stopWith {w : World} (h : w.InReset) (reconnect : World → World) :
    (stopWith cfg reconnect w).InReset := by
  rw [Libpomelo.stopWith]
  split
  · rw [if_pos (show (w.note (.stop w.state w.reconnecting)).reconnecting = true from
      h.reconnecting)]
    exact h.of_eq rfl rfl rfl
  · split
    · exact h.of_eq rfl rfl rfl
    · split
      · exact h.of_eq rfl rfl rfl
      · exact ⟨h.resetting, rfl, h.reconnecting⟩

/-- A request that is accepted is not in the map yet. -/
theorem asyncWrite_requests (type : ReqType) (id : ℕ) (route : Bytes) (msg : Option Json)
    (w : World) : (asyncWrite type id route msg w).requests = w.requests := by
  have hcases := asyncWrite_cases type id route msg w
  generalize asyncWrite type id route msg w = w' at hcases ⊢
  cases hcases with
  | failed => rfl
  | accepted => rfl

/-- Without a transport nothing is sent. -/
theorem asyncWrite_none {type : ReqType} {id : ℕ} {route : Bytes} {msg : Option Json} {w : World}
    (h : w.transport = none) : asyncWrite type id route msg w = w := by
  rw [asyncWrite, h]

/-- A call from inside a callback of the reset does not end it. -/
theorem World.InReset.userActWith {w : World} (h : w.InReset) (reconnect : World → World)
    (act : UserAct) : (userActWith cfg reconnect w act).InReset := by
  cases act with
  | stop => exact h.stopWith reconnect
  | disconnect =>
    rw [Libpomelo.userActWith, disconnectSend]
    split
    · exact h.of_eq rfl rfl rfl
    · exact h.of_eq rfl rfl rfl
  | request route msg =>
    rw [Libpomelo.userActWith, pcRequest]
    split
    · exact h
    · have hid : { w with reqId := (w.reqId + 1) % 2 ^ 32 }.InReset := h.of_eq rfl rfl rfl
      dsimp only
      rw [asyncWrite_none hid.transport]
      exact hid
  | notify route msg =>
    rw [Libpomelo.userActWith, pcNotify]
    split
    · exact h
    · rw [asyncWrite_none h.transport]
      exact h
  | protoCopy version client server => exact h.of_eq rfl rfl rfl

/-- What a callback keeps: what its event and every call of it keep. -/
theorem callbackWith_preserves {P : World → Prop} {reconnect : World → World}
    (hact : ∀ w act, P w → P (userActWith cfg reconnect w act)) {e : Event} {w : World}
    (hw : P (w.note e)) : P (callbackWith cfg reconnect e w) := by
  rw [callbackWith]
  generalize cfg.react (e :: w.trace) = acts
  generalize w.note e = w₀ at hw ⊢
  induction acts generalizing w₀ with
  | nil => exact hw
  | cons act acts ih =>
    apply ih _
    show P (w₀.andThen _)
    rw [World.andThen]
    split
    · exact hw
    · exact hact _ act hw

/-- A callback that the reset runs keeps it going, and is a sequence of moves. -/
theorem World.InReset.releaseInReset {w w₀ : World} {key : ℕ} {req : TcpReq}
    {before after : List (ℕ × TcpReq)} (h : w.InReset)
    (hmoves : Relation.ReflTransGen (AnyMove cfg) w₀ w)
    (hsplit : w.requests = before ++ (key, req) :: after) :
    (releaseInReset cfg req { w with requests := before ++ after }).InReset ∧
      Relation.ReflTransGen (AnyMove cfg) w₀
        (releaseInReset cfg req { w with requests := before ++ after }) := by
  refine callbackWith_preserves
    (P := fun w' => w'.InReset ∧ Relation.ReflTransGen (AnyMove cfg) w₀ w') ?_ ?_
  · rintro w' act ⟨hin, hm⟩
    refine ⟨hin.userActWith id act, hm.trans (moves_userActWith act ?_).seq⟩
    intro _ _ hrec
    rw [hin.reconnecting] at hrec
    exact absurd hrec (by decide)
  · exact ⟨h.of_eq rfl rfl rfl, hmoves.tail ⟨_, .release key req before after hsplit⟩⟩

/-- A call from a callback that the reset runs adds nothing to the map. -/
theorem userActWith_requests (w : World) (act : UserAct) :
    (userActWith cfg id w act).requests = w.requests := by
  cases act with
  | stop =>
    rw [userActWith, stopWith]
    split
    · split <;> rfl
    · split
      · rfl
      · split <;> rfl
  | disconnect =>
    rw [userActWith, disconnectSend]
    split <;> rfl
  | request route msg =>
    rw [userActWith, pcRequest]
    split
    · rfl
    · exact asyncWrite_requests ..
  | notify route msg =>
    rw [userActWith, pcNotify]
    split
    · rfl
    · exact asyncWrite_requests ..
  | protoCopy => rfl

theorem releaseInReset_requests (req : TcpReq) (w : World) :
    (releaseInReset cfg req w).requests.length ≤ w.requests.length := by
  refine callbackWith_preserves (P := fun w' => w'.requests.length ≤ w.requests.length) ?_ ?_
  · intro w' act hle
    rwa [userActWith_requests]
  · exact Nat.le_refl _

/-- A timer that was stopped does not run. -/
@[simp] theorem any_map_uvTimerStop (timer : Option Timer) :
    (timer.map uvTimerStop).any Timer.active = false := by
  cases timer with
  | none => rfl
  | some timer => rfl

/-- What `pc__client_reconnect` leaves of the client `v` that the callbacks of its requests
leave. -/
inductive ReconnectCase (cfg : Config) (v : World) : World → Prop where
  /-- a callback crashed -/
  | crashed : v.halted.isSome = true → ReconnectCase cfg v v
  /-- the reset is complete, and the reconnect timer runs -/
  | reset : v.halted = none → ReconnectCase cfg v
      ({ resetFields v with
          state := .inited, resetting := false, reconnects := v.reconnects + 1,
          reconnectTimer := ⟨true, 0⟩ }.note (.reset (reconnectBase cfg.reconnectSettings (v.reconnects + 1))))

/-- What a reset does before it sets the timer, and the timer. -/
theorem clientReconnect_cases (cfg : Config) (w : World) :
    ReconnectCase cfg (requestsClear (releaseInReset cfg) w.requests.length
      (stopTimers (dropTransport { w with reconnecting := true, resetting := true })))
      (clientReconnect cfg w) := by
  rw [clientReconnect, clientReconnectReset]
  dsimp only [dropTransport, stopTimers]
  generalize requestsClear (releaseInReset cfg) w.requests.length _ = v
  by_cases hhalt : v.halted = none
  · have hhalt' : ({ resetFields v with state := .inited, resetting := false } : World).halted =
      none := hhalt
    rw [World.andThen_of_none hhalt, World.andThen_of_none hhalt']
    exact .reset hhalt
  · have hsome : v.halted.isSome = true := Option.isSome_iff_ne_none.mpr hhalt
    rw [World.andThen_of_some hsome, World.andThen_of_some hsome]
    exact .crashed hsome

/-- **Reconnecting is a sequence of moves**, from the call of `pc_client_stop` on. -/
theorem moves_clientReconnect {w : World} (hcfg : cfg.enableReconnect = true)
    (hstate : w.state ≠ .disconnecting) (hrec : w.reconnecting = false) :
    Moves cfg w (clientReconnect cfg (w.note (.stop w.state false))) := by
  have hstart : Relation.ReflTransGen (AnyMove cfg) w
      (stopTimers (dropTransport { w.note (.stop w.state false) with
        reconnecting := true, resetting := true })) :=
    .head ⟨_, .inert (stopTimers w) rfl .stopTimers⟩ (.single
      ⟨_, .beginReset hcfg hstate hrec (any_map_uvTimerStop _)⟩)
  have hin : (stopTimers (dropTransport { w.note (.stop w.state false) with
      reconnecting := true, resetting := true })).InReset := ⟨rfl, rfl, rfl⟩
  obtain ⟨hinv, hm⟩ := requestsClear_preserves
    (P := fun w' => w'.InReset ∧ Relation.ReflTransGen (AnyMove cfg) w w')
    (fun w' key req before after hw' hsplit => hw'.1.releaseInReset hw'.2 hsplit)
    w.requests.length _ ⟨hin, hstart⟩
  have hempty := requestsClear_requests (@releaseInReset_requests cfg)
    w.requests.length _ (Nat.le_refl (stopTimers (dropTransport
      { w.note (.stop w.state false) with reconnecting := true, resetting := true })).requests.length)
  have hcases := clientReconnect_cases cfg (w.note (.stop w.state false))
  dsimp only [World.note] at hinv hm hempty hcases ⊢
  generalize requestsClear (releaseInReset cfg) w.requests.length _ = v at hinv hm hempty hcases
  generalize clientReconnect cfg _ = w' at hcases ⊢
  cases hcases with
  | crashed hsome => exact ⟨hm, fun hnone => absurd hsome (by simp [hnone])⟩
  | reset hhalt =>
    have hnil : v.requests = [] := hempty.resolve_left (by simp [hhalt])
    have hfields : (resetFields v).InReset := hinv.of_eq rfl rfl rfl
    refine ⟨(hm.tail ⟨_, .inert (resetFields v) rfl .dropTables⟩).tail ?_, fun _ _ => rfl⟩
    exact ⟨_, .reset _ hcfg hnil hfields⟩

/-- A client that has been reset is `INITED`. -/
theorem clientReconnect_state {w : World} (h : (clientReconnect cfg w).halted = none) :
    (clientReconnect cfg w).state = .inited := by
  have hcases := clientReconnect_cases cfg w
  generalize clientReconnect cfg w = w' at h hcases ⊢
  cases hcases with
  | crashed hsome => exact absurd hsome (by simp [h])
  | reset => rfl

/-- **Stopping is a sequence of moves.** -/
theorem moves_clientStop (w : World) : Moves cfg w (clientStop cfg w) :=
  moves_stopWith fun hcfg hstate hrec => moves_clientReconnect hcfg hstate hrec

/-- After a stop the client is not `DISCONNECTING`. -/
theorem clientStop_state_ne {w : World} (h : (clientStop cfg w).halted = none) :
    (clientStop cfg w).state ≠ .disconnecting := by
  rw [clientStop, stopWith] at h ⊢
  split
  · next hst =>
    rw [if_pos hst] at h
    split
    · exact hst.2
    · next hrec =>
      rw [if_neg hrec] at h
      rw [clientReconnect_state h]
      decide
  · split
    · simp
    · split
      · next hcl => rw [hcl]; decide
      · simp [clientClose, dropTransport, World.note]

/-- A stop that closes the client stops the reconnect timer. -/
theorem clientStop_timer {w : World} (hcfg : cfg.enableReconnect = true)
    (hasync : w.closeAsync = true) (h : (clientStop cfg w).halted = none)
    (hclosed : (clientStop cfg w).state = .closed)
    (hasync' : (clientStop cfg w).closeAsync = false) :
    (clientStop cfg w).reconnectTimer.active = false := by
  have hsame : ∀ e, (w.note e).closeAsync = w.closeAsync := fun _ => rfl
  rw [clientStop, stopWith] at h hclosed hasync' ⊢
  split at hclosed
  · next hst =>
    rw [if_pos hst] at h hasync' ⊢
    split at hclosed
    · next hrec =>
      rw [if_pos hrec, hsame, hasync] at hasync'
      exact absurd hasync' (by decide)
    · next hrec =>
      rw [if_neg hrec] at h
      rw [clientReconnect_state h] at hclosed
      exact absurd hclosed (by decide)
  · next hst =>
    rw [if_neg hst] at hasync' ⊢
    split at hclosed
    · next hinit =>
      rw [if_pos hinit] at hasync'
      rw [show w.closeAsync = false from hasync'] at hasync
      exact absurd hasync (by decide)
    · next hinit =>
      rw [if_neg hinit] at hasync' ⊢
      split at hclosed
      · next hcl =>
        rw [if_pos hcl, hsame, hasync] at hasync'
        exact absurd hasync' (by decide)
      · next hcl =>
        rw [if_neg hcl]
        simp [clientClose, dropTransport, World.note, hcfg, uvTimerStop]

/-- A failure is noted, and the client is stopped. -/
theorem moves_failWith {f : Failure} (hf : f ≠ .heartbeatTimeout) (w : World) :
    Moves cfg w (failWith cfg f w) :=
  .head (.note (.failure f) fun h => absurd h hf) (moves_clientStop _)

theorem moves_userAct (act : UserAct) (w : World) : Moves cfg w (userAct cfg w act) :=
  moves_userActWith act fun hcfg hstate hrec => moves_clientReconnect hcfg hstate hrec

/-- After its event is recorded, a callback only makes calls. -/
theorem moves_callback (e : Event) (w : World) : Moves cfg (w.note e) (callback cfg e w) :=
  callbackWith_preserves (P := Moves cfg (w.note e))
    (fun w' act hm => hm.trans (moves_userAct act w')) .refl

/-! The events that the calls of a callback leave behind. -/

/-- The event comes from a call into the library. -/
def Event.OfCall : Event → Bool
  | .accepted _ | .requestCb _ _ | .stop _ _ | .closed | .reset _ | .disconnect _ | .closeSend _
  | .copied _ _ _ => true
  | _ => false

/-- Only such events were added. -/
def World.Adds (w w' : World) : Prop :=
  ∃ newer, w'.trace = newer ++ w.trace ∧ ∀ e ∈ newer, e.OfCall = true

/-- A handler that records nothing. -/
theorem World.Adds.of_eq {w w' : World} (h : w'.trace = w.trace) : w.Adds w' :=
  ⟨[], h, fun _ he => absurd he List.not_mem_nil⟩

theorem World.Adds.trans {w w₁ w' : World} (h : w.Adds w₁) (h' : w₁.Adds w') : w.Adds w' := by
  obtain ⟨newer, htrace, hall⟩ := h
  obtain ⟨newer', htrace', hall'⟩ := h'
  refine ⟨newer' ++ newer, by rw [htrace', htrace, List.append_assoc], ?_⟩
  intro e he
  rcases List.mem_append.1 he with he | he
  · exact hall' e he
  · exact hall e he

/-- A handler that records one event. -/
theorem World.Adds.cons {w w' : World} {e : Event} (h : w'.trace = e :: w.trace)
    (he : e.OfCall = true) : w.Adds w' := by
  refine ⟨[e], h, fun e' he' => ?_⟩
  rw [List.mem_singleton.1 he']
  exact he

theorem adds_asyncWrite (type : ReqType) (id : ℕ) (route : Bytes) (msg : Option Json) (w : World) :
    w.Adds (asyncWrite type id route msg w) := by
  have hcases := asyncWrite_cases type id route msg w
  generalize asyncWrite type id route msg w = w' at hcases ⊢
  cases hcases with
  | failed => exact .of_eq rfl
  | accepted => exact .cons rfl rfl

theorem adds_stopWith {reconnect : World → World} (hrec : ∀ w : World, w.Adds (reconnect w)) (w : World) :
    w.Adds (stopWith cfg reconnect w) := by
  have hstop : w.Adds (w.note (.stop w.state w.reconnecting)) := .cons rfl rfl
  rw [stopWith]
  split
  · split
    · exact hstop
    · exact hstop.trans (hrec _)
  · split
    · exact hstop.trans (.of_eq rfl)
    · split
      · exact hstop
      · exact hstop.trans (.cons rfl rfl)

/-- The calls from inside a callback record nothing else. -/
theorem adds_userActWith {reconnect : World → World} (hrec : ∀ w : World, w.Adds (reconnect w)) (w : World)
    (act : UserAct) : w.Adds (userActWith cfg reconnect w act) := by
  cases act with
  | stop => exact adds_stopWith hrec w
  | disconnect =>
    have hset : w.Adds (disconnectSet w) := .cons rfl rfl
    rw [userActWith, disconnectSend]
    split
    · exact hset.trans (.cons rfl rfl)
    · exact hset.trans (.cons rfl rfl)
  | request route msg =>
    rw [userActWith, pcRequest]
    split
    · exact .of_eq rfl
    · exact World.Adds.trans (.of_eq rfl) (adds_asyncWrite ..)
  | notify route msg =>
    rw [userActWith, pcNotify]
    split
    · exact .of_eq rfl
    · exact adds_asyncWrite ..
  | protoCopy version client server => exact .cons rfl rfl

/-- A callback is recorded, and then what the user does in it. -/
theorem adds_callbackWith {reconnect : World → World} (hrec : ∀ w : World, w.Adds (reconnect w)) (e : Event)
    (w : World) : (w.note e).Adds (callbackWith cfg reconnect e w) :=
  callbackWith_preserves (P := (w.note e).Adds)
    (fun w' act h => h.trans (adds_userActWith hrec w' act)) (.of_eq rfl)

/-- A reset records the callbacks of the requests that it releases. -/
theorem adds_clientReconnect (w : World) : w.Adds (clientReconnect cfg w) := by
  have hclear : w.Adds (requestsClear (releaseInReset cfg) w.requests.length
      (stopTimers (dropTransport { w with reconnecting := true, resetting := true }))) := by
    refine requestsClear_preserves (P := w.Adds) ?_ _ _ (.of_eq rfl)
    intro w' key req before after h _
    exact (h.trans (.cons rfl rfl)).trans (adds_callbackWith (fun _ => .of_eq rfl) _ _)
  have hcases := clientReconnect_cases cfg w
  generalize clientReconnect cfg w = w' at hcases ⊢
  cases hcases with
  | crashed => exact hclear
  | reset => exact hclear.trans (.cons rfl rfl)

/-- The stop is recorded first. -/
theorem clientStop_trace (w : World) : ∃ newer,
    (clientStop cfg w).trace = newer ++ .stop w.state w.reconnecting :: w.trace ∧
      ∀ e ∈ newer, e.OfCall = true := by
  have hsame : (w.note (.stop w.state w.reconnecting)).Adds (clientStop cfg w) := by
    rw [clientStop, stopWith]
    split
    · split
      · exact .of_eq rfl
      · exact adds_clientReconnect _
    · split
      · exact .of_eq rfl
      · split
        · exact .of_eq rfl
        · exact .cons rfl rfl
  exact hsame

theorem moves_emit (event : Bytes) (w : World) :
    Moves cfg w (callback cfg (.emitted event) w) :=
  .head (.note (.emitted event) trivial) (moves_callback _ w)

theorem moves_emitEvent (event : String) (w : World) : Moves cfg w (emitEvent cfg event w) :=
  moves_emit _ w

theorem moves_condBroadcast (w : World) : Moves cfg w (condBroadcast w) := by
  rw [condBroadcast]
  split
  · next h => exact .head (.wake h) (.single (.note (.broadcast true) (.inl rfl)))
  · next h => exact .single (.note (.broadcast false) (.inr h))

/-- Clearing the map at the end: every callback is a sequence of moves. -/
theorem moves_requestsClear (n : ℕ) (w : World) :
    Moves cfg w (requestsClear (releaseRequest cfg) n w) := by
  refine requestsClear_preserves (P := Moves cfg w) ?_ n w .refl
  intro w' key req before after hm hsplit
  exact (hm.tail (.release key req before after hsplit)).trans (moves_callback _ _)

/-- After its event is recorded, a connect callback stops the client, wakes the caller or
tells the listeners. -/
theorem moves_connectCb (req : ConnReq) (status : ℤ) (w : World) :
    Moves cfg (w.note (.connectCb req status)) (connectCb cfg req status w) := by
  rw [connectCb]
  split
  · exact moves_callback _ w
  · dsimp only
    split
    · exact moves_clientStop _
    · exact moves_condBroadcast _
  · dsimp only
    split
    · exact moves_clientStop _
    · exact moves_emitEvent _ _
  · refine .head .clearReconnecting (.head .stopTimer ?_)
    dsimp only
    split
    · exact .head .clearReconnects (moves_emitEvent _ _)
    · exact moves_clientStop _

end Stop

/-! ## Packages -/

section Packages

variable {cfg : Config}

/-- **`pc__binary_write`** fails, crashes, or queues a write on the current transport of a
client that is connected. -/
inductive BinaryWrite (cb : WriteCb) (data : Option Bytes) (w : World) : World × Bool → Prop where
  /-- it returns `-1` -/
  | failed (supply : List Bool) : BinaryWrite cb data w ({ w with supply := supply }, false)
  /-- undefined behaviour -/
  | crashed (supply : List Bool) :
      BinaryWrite cb data w ({ w with supply := supply }.halt .crash, false)
  /-- the write is queued -/
  | queued (t : ℕ) (bytes : Bytes) (supply : List Bool) : w.transport = some t →
      w.state = .connected ∨ w.state = .working → data = some bytes →
      BinaryWrite cb data w (queueWrite cb t (some bytes) { w with supply := supply }, true)

/-- A package without a message is written, or the write fails on the way. -/
theorem binaryWrite_cases (cb : WriteCb) (data : Option Bytes) (w : World) :
    BinaryWrite cb data w (binaryWrite cb data w) := by
  unfold binaryWrite
  split
  · exact .failed w.supply
  · next hst =>
    have hst' : w.state = .connected ∨ w.state = .working := by
      by_contra hno
      exact hst (not_or.mp hno)
    split
    · exact .failed _
    · split
      · exact .failed _
      · next data t ht =>
        split
        · exact .crashed _
        · split
          · exact .failed _
          · exact .queued t data _ ht hst' rfl
      · exact .crashed _

/-- The version is looked up. -/
theorem moves_loadProtoVer (w : World) : Moves cfg w (loadProtoVer w) := by
  refine Moves.inert ?_ .loadProtoVer
  rw [loadProtoVer]
  split <;> rfl

/-- **`pc__handshake_req`** from where it has looked up the version: it fails, or queues the
request and starts the handshake timer. -/
inductive HandshakeReq (w : World) : World × Bool → Prop where
  /-- it returns `-1` -/
  | failed (supply : List Bool) : HandshakeReq w ({ w with supply := supply }, false)
  /-- undefined behaviour -/
  | crashed (supply : List Bool) : HandshakeReq w ({ w with supply := supply }.halt .crash, false)
  /-- there is no timer to start -/
  | stranded (t : ℕ) (data : Bytes) (supply : List Bool) : w.transport = some t →
      WriteCb.handshakeReq.Packs (some data) → HandshakeReq w ((queueWrite .handshakeReq t (some data) { w with supply := supply }).halt .crash,
        true)
  /-- the request is on its way -/
  | queued (t : ℕ) (data : Bytes) (supply : List Bool) : w.transport = some t →
      w.state = .connected ∨ w.state = .working → w.handshakeTimer.isSome = true →
      WriteCb.handshakeReq.Packs (some data) → HandshakeReq w ({ queueWrite .handshakeReq t (some data) { w with supply := supply } with
        handshakeTimer := some ⟨true, 0⟩ }.note (.announced w.protoVer), true)

/-- The handshake request is written with the version at hand, or fails on the way. -/
theorem handshakeReq_cases (cfg : Config) (w : World) :
    HandshakeReq (loadProtoVer w) (handshakeReq cfg w) := by
  rw [handshakeReq]
  generalize loadProtoVer w = w₁
  dsimp only
  split
  · exact .failed w₁.supply
  · next body _ =>
    split
    · exact .crashed w₁.supply
    · next hlen =>
      simp only [encodePkg]
      have hcases := binaryWrite_cases .handshakeReq (pkgEncode w₁.supply pkgHandshake body)
        w₁.called
      generalize binaryWrite .handshakeReq (pkgEncode w₁.supply pkgHandshake body) w₁.called = r
        at hcases ⊢
      cases hcases with
      | failed supply => exact .failed supply
      | crashed supply => exact .crashed supply
      | queued t data supply ht hst hdata =>
        have hpacks : WriteCb.handshakeReq.Packs (some data) :=
          ⟨w₁.supply, body, hdata.symm, not_le.mp hlen, by simp⟩
        dsimp only
        split
        · next timer htimer =>
          exact .queued t data supply ht hst (Option.isSome_iff_exists.mpr ⟨timer, htimer⟩) hpacks
        · exact .stranded t data supply ht hpacks

theorem links_handshakeReq (w : World) : Links cfg w (handshakeReq cfg w).1 := by
  apply (moves_loadProtoVer w).links.trans
  have hcases := handshakeReq_cases cfg w
  generalize loadProtoVer w = w₁ at hcases ⊢
  generalize handshakeReq cfg w = r at hcases ⊢
  cases hcases with
  | failed supply => exact (Moves.supply supply).links
  | crashed supply => exact ((Moves.supply supply).trans (Moves.halt _)).links
  | stranded t data supply ht hpacks =>
    apply (Moves.supply supply).links.trans
    exact .head (.greet t data ht hpacks) rfl (Moves.halt _).links
  | queued t data supply ht hst htimer hpacks =>
    apply (Moves.supply supply).links.trans
    refine .head (.greet t data ht hpacks) rfl (Moves.links ?_)
    refine .head (.inert { queueWrite .handshakeReq t (some data) { w₁ with supply := supply } with
      handshakeTimer := some ⟨true, 0⟩ } rfl (.armHandshake htimer hst)) ?_
    exact .single (.note (.announced w₁.protoVer) rfl)

/-- Firing and stopping a timer is stopping it. -/
theorem uvTimerStop_fired (timer : Timer) : uvTimerStop (uvTimerFired timer) = uvTimerStop timer := by
  rw [uvTimerFired, uvTimerAgain]
  split <;> rfl

theorem map_stop_fired (timer : Option Timer) :
    (timer.map uvTimerFired).map uvTimerStop = timer.map uvTimerStop := by
  cases timer with
  | none => rfl
  | some timer => exact congrArg some (uvTimerStop_fired timer)

/-- A heartbeat is written like any package, and only by a `WORKING` client. -/
theorem heartbeatReq_cases (w : World) :
    BinaryWrite .heartbeatReq (pkgEncode w.supply pkgHeartbeat []) w (heartbeatReq w) ∧
      ((heartbeatReq w).2 = true → w.state = .working) := by
  rw [heartbeatReq]
  split
  · exact ⟨.failed w.supply, fun h => absurd h (by simp)⟩
  · next hst =>
    refine ⟨?_, fun _ => by simpa using hst⟩
    simp only [encodePkg]
    split
    · next h => exact (Prod.mk.inj h).2 ▸ .failed _
    · next buf w' h =>
      obtain ⟨hbuf, rfl⟩ := Prod.mk.inj h
      have hcases := binaryWrite_cases .heartbeatReq (some buf) w.called
      generalize binaryWrite .heartbeatReq (some buf) w.called = r at hcases ⊢
      cases hcases with
      | failed supply => exact .failed supply
      | crashed supply => exact .crashed supply
      | queued t bytes supply ht hst' hbytes =>
        exact .queued t bytes supply ht hst' (hbuf.trans hbytes)

/-- **The heartbeat timer.** It is stopped, and either a heartbeat goes out and the timeout
timer runs, or the client is stopped. -/
theorem moves_heartbeatCb {w : World} (hactive : w.heartbeatTimer.any Timer.active = true) :
    Moves cfg w (heartbeatCb cfg { w with heartbeatTimer := w.heartbeatTimer.map uvTimerFired }) := by
  have hfire : Moves cfg w { w with heartbeatTimer := w.heartbeatTimer.map uvTimerStop } :=
    Moves.inert rfl (.fireHeartbeat hactive)
  rw [heartbeatCb]
  simp only [map_stop_fired]
  obtain ⟨hcases, hst⟩ := heartbeatReq_cases
    { w with heartbeatTimer := w.heartbeatTimer.map uvTimerStop }
  generalize heartbeatReq { w with heartbeatTimer := w.heartbeatTimer.map uvTimerStop } = r
    at hcases hst ⊢
  cases hcases with
  | failed supply =>
    exact (hfire.trans (Moves.supply supply)).trans (Moves.andThen (moves_failWith (by decide) _))
  | crashed supply =>
    exact ((hfire.trans (Moves.supply supply)).trans (Moves.halt .crash)).trans
      (Moves.andThen (moves_failWith (by decide) _))
  | queued t data supply ht _ hdata =>
    have hpacks : WriteCb.heartbeatReq.Packs (some data) :=
      ⟨w.supply, [], hdata.symm, by decide, by simp⟩
    -- the write is queued while the timer still counts as running
    apply (Moves.supply supply).trans
    refine .head (.queueWrite .heartbeatReq t (some data) ht ⟨hst rfl, hactive⟩ hpacks) ?_
    exact Moves.inert rfl
      (.beatSent ⟨.heartbeatReq, t, some data⟩ w.trace hactive (hst rfl) ht rfl rfl)

/-- **The timeout timer.** What its callback emits cannot answer the heartbeat. -/
theorem moves_timeoutCb {w : World} (hactive : w.timeoutTimer.any Timer.active = true)
    (hhalt : w.halted = none) :
    Moves cfg w (timeoutCb cfg { w with timeoutTimer := w.timeoutTimer.map uvTimerFired }) := by
  rw [timeoutCb]
  simp only [map_stop_fired]
  refine .head (.note .timedOut ⟨hactive, hhalt⟩) ?_
  refine .head (.inert { w.note .timedOut with timeoutTimer := w.timeoutTimer.map uvTimerStop } rfl
    (.fireTimeout hactive)) ?_
  refine (moves_emitEvent ..).trans (Moves.andThen ?_)
  refine .head (.note (.failure .heartbeatTimeout) fun _ => ?_) (moves_clientStop _)
  obtain ⟨newer, htrace, hcalls⟩ := adds_callbackWith (@adds_clientReconnect cfg)
    (.emitted (utf8Bytes "timeout"))
    ({ w with timeoutTimer := w.timeoutTimer.map uvTimerStop }.note .timedOut)
  refine ⟨newer ++ [.emitted (utf8Bytes "timeout")], w.trace, ?_, ?_⟩
  · rw [List.append_assoc]
    exact htrace
  · intro e he hans
    rcases List.mem_append.1 he with he | he
    · have hcall := hcalls e he
      cases e with
      | pkg | agreed => exact absurd hcall (by simp [Event.OfCall])
      | _ => exact hans
    · rw [List.mem_singleton.1 he] at hans
      exact hans

theorem moves_handshakeTimeoutCb (w : World) :
    Moves cfg w (handshakeTimeoutCb cfg { w with handshakeTimer := w.handshakeTimer.map uvTimerFired }) := by
  rw [handshakeTimeoutCb]
  simp only [map_stop_fired]
  refine .head (.inert { w with handshakeTimer := w.handshakeTimer.map uvTimerStop } rfl
    .stopHandshake) ?_
  exact (moves_emitEvent ..).trans (Moves.andThen (moves_failWith (by decide) _))

theorem moves_heartbeat (w : World) : Moves cfg w (heartbeat w) := by
  rw [heartbeat]
  split
  · next timeout heartbeat hto hhb => exact Moves.inert rfl (.beat timeout heartbeat hto hhb)
  · exact Moves.halt _

/-- **`pc__heartbeat`**, with the event that asks for it. The timers are set first, so that
the event is recorded while the timeout timer does not run. -/
theorem moves_heartbeat_note {w : World} (e : Event)
    (hq : ∀ w', w'.Answered → w'.trace = w.trace → e.Quiet w') :
    Moves cfg w (heartbeat (w.note e)) := by
  have hnote : heartbeat (w.note e) = (heartbeat w).note e := by
    cases hto : w.timeoutTimer <;> cases hhb : w.heartbeatTimer <;>
      simp [heartbeat, World.note, World.halt, hto, hhb]
  have hans : (heartbeat w).Answered ∧ (heartbeat w).trace = w.trace := by
    rw [heartbeat]
    split
    · exact ⟨.inl rfl, rfl⟩
    · exact ⟨.inr rfl, rfl⟩
  rw [hnote]
  exact (moves_heartbeat w).tail (.note e (hq _ hans.1 hans.2))

theorem inert_setupHeartbeat (sys : Json) (w : World) : w.Inert (setupHeartbeat sys w) := by
  rw [setupHeartbeat]
  dsimp only
  split <;> rfl

theorem inert_setupDictionary (sys : Json) (w : World) : w.Inert (setupDictionary sys w) := by
  rw [setupDictionary]
  split <;> rfl

theorem inert_setupProtos (sys : Json) (w : World) : w.Inert (setupProtos sys w) := by
  rw [setupProtos]
  split <;> rfl

theorem World.Inert.trans {w₁ w₂ w₃ : World} (h : w₁.Inert w₂) (h' : w₂.Inert w₃) :
    w₁.Inert w₃ := by
  rw [World.Inert, h'.eq]
  rw [h.eq]

/-- The `sys` part of a response changes nothing that moves look at. -/
theorem inert_setupSys (res : Json) (w : World) : w.Inert (setupSys res w) := by
  rw [setupSys]
  split
  · next sys _ =>
    exact (inert_setupHeartbeat sys w).trans
      ((inert_setupDictionary sys _).trans (inert_setupProtos sys _))
  · rfl

theorem moves_askUser (res : Json) (w : World) : Moves cfg w (askUser cfg res w).1 := by
  rw [askUser]
  split
  · exact .refl
  · exact .head (.note .handshakeCb trivial) (moves_callback _ w)

/-- **The ack.** It changes nothing that `pc__heartbeat` looks at. -/
inductive HandshakeAck (w : World) : World → Prop where
  /-- it is not written -/
  | failed (supply : List Bool) : HandshakeAck w { w with supply := supply }
  /-- undefined behaviour -/
  | crashed (supply : List Bool) : HandshakeAck w ({ w with supply := supply }.halt .crash)
  /-- the write is queued -/
  | queued (t : ℕ) (data : Bytes) (supply : List Bool) : w.transport = some t →
      WriteCb.handshakeAck.Packs (some data) →
      HandshakeAck w (queueWrite .handshakeAck t (some data) { w with supply := supply })

/-- The ack is written, or fails on the way. -/
theorem handshakeAck_cases (w : World) : HandshakeAck w (handshakeAck w) := by
  rw [handshakeAck]
  simp only [encodePkg]
  split
  · next h => exact (Prod.mk.inj h).2 ▸ .failed _
  · next buf w' h =>
    obtain ⟨hbuf, rfl⟩ := Prod.mk.inj h
    have hcases := binaryWrite_cases .handshakeAck (some buf) w.called
    generalize binaryWrite .handshakeAck (some buf) w.called = r at hcases ⊢
    cases hcases with
    | failed supply => exact .failed supply
    | crashed supply => exact .crashed supply
    | queued t data supply ht _ hdata =>
      exact .queued t data supply ht
        ⟨w.supply, [], (hbuf.trans hdata).symm, by decide, by simp⟩

/-- **An accepted response.** The heartbeat is set going first, then the acceptance is
recorded and the ack written. -/
theorem moves_agreed {w : World} {res : Json} (hhalt : w.halted = none)
    (hshook : ∀ t, w.transport = some t →
      ∃ server client, .shook (some t) res server client ∈ w.trace) :
    Moves cfg w ((handshakeAck (w.note (.agreed w.transport res))).andThen heartbeat) := by
  have hquiet : ∀ w', w'.Answered → w'.trace = w.trace →
      (Event.agreed w.transport res).Quiet w' := by
    intro w' hans htrace
    refine ⟨hans, fun t ht => ?_⟩
    rw [htrace]
    exact hshook t ht
  have hcases := handshakeAck_cases (w.note (.agreed w.transport res))
  generalize handshakeAck (w.note (.agreed w.transport res)) = w₁ at hcases ⊢
  cases hcases with
  | failed supply =>
    have hhalt' : ({ w.note (.agreed w.transport res) with supply := supply } : World).halted = none :=
      hhalt
    rw [World.andThen_of_none hhalt']
    apply (Moves.supply supply).trans
    exact moves_heartbeat_note (w := { w with supply := supply }) (.agreed w.transport res) hquiet
  | crashed supply =>
    have hhalt' : (({ w.note (.agreed w.transport res) with supply := supply } : World).halt
      .crash).halted.isSome = true := rfl
    rw [World.andThen_of_some hhalt']
    refine (Moves.supply supply).trans (.head (.halt .crash) (Moves.single (.note _ ?_)))
    exact hquiet _ (.inr rfl) rfl
  | queued t data supply ht hpacks =>
    have ht' : w.transport = some t := ht
    have hhalt' : (queueWrite .handshakeAck t (some data)
      { w.note (.agreed w.transport res) with supply := supply }).halted = none := hhalt
    rw [World.andThen_of_none hhalt', heartbeat]
    apply (Moves.supply supply).trans
    have hdue : ∀ w' : World, w'.trace = .agreed w.transport res :: w.trace →
        WriteCb.Due w' t .handshakeAck := by
      intro w' htrace
      rw [WriteCb.Due, htrace, ht']
      exact ⟨res, List.mem_cons_self ..⟩
    split
    · next timeout heartbeat hto hhb =>
      refine .head (.inert { w with
        supply := supply
        timeoutTimer := some (uvTimerStop timeout)
        heartbeatTimer := some (uvTimerAgain heartbeat) } rfl (.beat timeout heartbeat hto hhb)) ?_
      refine .head (.note (.agreed w.transport res) (hquiet _ (.inl rfl) rfl)) ?_
      exact Moves.single (.queueWrite .handshakeAck t (some data) ht (hdue _ rfl) hpacks)
    · refine .head (.halt .crash) ?_
      refine .head (.note (.agreed w.transport res) (hquiet _ (.inr rfl) rfl)) ?_
      exact Moves.single (.queueWrite .handshakeAck t (some data) ht (hdue _ rfl) hpacks)

/-- A transport that is still the current one was so when the response was processed. -/
theorem shook_seen {w w' : World} {res : Json} {server client : Option Json}
    (h : Moves cfg (w.note (.shook w.transport res server client)) w') {t : ℕ}
    (ht : w'.transport = some t) :
    ∃ server client, .shook (some t) res server client ∈ w'.trace := by
  have hsame : w.transport = some t := h.transport ht
  refine ⟨server, client, h.trace_suffix.subset ?_⟩
  rw [hsame]
  exact List.mem_cons_self ..

/-- A handshake response on the transport that is read. -/
theorem moves_handshakeResp {w : World} {t : ℕ} (hread : w.reading = some t) (body : Bytes) :
    Moves cfg w (handshakeResp cfg body w).1 := by
  rw [handshakeResp]
  split
  · exact Moves.halt _
  · next timer htimer =>
    have hstop : { w with handshakeTimer := some (uvTimerStop timer) } =
        { w with handshakeTimer := w.handshakeTimer.map uvTimerStop } := by
      rw [htimer]
      rfl
    rw [hstop]
    refine .head (.inert { w with handshakeTimer := w.handshakeTimer.map uvTimerStop } rfl
      .stopHandshake) ?_
    have hread₁ : { w with handshakeTimer := w.handshakeTimer.map uvTimerStop }.reading = some t :=
      hread
    generalize { w with handshakeTimer := w.handshakeTimer.map uvTimerStop } = w₁ at hread₁ ⊢
    dsimp only
    split
    · exact .refl
    · next res _ =>
      split
      · exact .refl
      · next hcode =>
        have hshook : Move cfg false w₁ _ := .shook (setupSys res w₁) t res (inert_setupSys res w₁) rfl
          (by simpa using hcode) hread₁
        generalize setupSys res w₁ = w₂ at hshook ⊢
        refine .head hshook ?_
        have hask : Moves cfg _ _ := moves_askUser res
          (w₂.note (.shook w₂.transport res w₂.tables.serverProtos w₂.tables.clientProtos))
        apply hask.trans
        have hseen := fun t => shook_seen (t := t) hask
        generalize askUser cfg res
          (w₂.note (.shook w₂.transport res w₂.tables.serverProtos w₂.tables.clientProtos)) = r
          at hseen ⊢
        by_cases hhalt : r.1.halted = none
        · split
          · rw [World.andThen_of_none hhalt]
            exact moves_agreed hhalt hseen
          · rw [World.andThen_of_none hhalt]
            exact moves_heartbeat _
        · have hsome : r.1.halted.isSome = true := Option.isSome_iff_ne_none.mpr hhalt
          split
          · rw [World.andThen_of_some hsome, World.andThen_of_some hsome]
            exact .refl
          · rw [World.andThen_of_some hsome]
            exact .refl

/-- A found key splits the map at its first pair, and deleting it removes that pair. -/
theorem lookup_split {id : ℕ} {req : TcpReq} :
    ∀ {l : List (ℕ × TcpReq)}, l.lookup id = some req →
      ∃ before after, l = before ++ (id, req) :: after ∧
        l.eraseP (fun kv => kv.1 = id) = before ++ after := by
  intro l
  induction l with
  | nil =>
    intro h
    exact absurd h (by simp)
  | cons kv l ih =>
    obtain ⟨k, r⟩ := kv
    intro h
    by_cases hk : id = k
    · subst hk
      rw [List.lookup_cons_self] at h
      obtain rfl := Option.some.inj h
      exact ⟨[], l, rfl, by simp⟩
    · rw [List.lookup_cons, beq_eq_false_iff_ne.2 hk] at h
      obtain ⟨before, after, rfl, herase⟩ := ih h
      refine ⟨(k, r) :: before, after, rfl, ?_⟩
      rw [List.eraseP_cons_of_neg (by simpa using Ne.symm hk), herase]
      rfl

theorem moves_processResponse {w : World} {t : ℕ} {raw : RawMsg} {rest : List Event}
    (hread : w.reading = some t)
    (htrace : w.trace = .message raw (requestsGet w raw.id).isSome :: rest)
    (hid : raw.type.hasId = true) : Moves cfg w (processResponse cfg raw.id w) := by
  rw [processResponse]
  split
  · exact .refl
  · next req hreq =>
    rw [hreq] at htrace
    obtain ⟨before, after, hsplit, herase⟩ := lookup_split hreq
    refine .head (.respond t raw rest req before after hsplit htrace hid hread) ?_
    have hdel : requestsDel raw.id w = { w with requests := before ++ after } := by
      rw [requestsDel, herase]
    rw [hdel]
    exact moves_callback _ _

/-- A data package on the transport that is read. -/
theorem moves_pcData {w : World} {t : ℕ} (hread : w.reading = some t) (body : Bytes) :
    Moves cfg w (pcData cfg body w).1 := by
  rw [pcData]
  dsimp only
  split
  · exact .refl
  · exact Moves.halt _
  · next raw msg supply hparse =>
    obtain ⟨hmid, hhas⟩ := defaultMsgParseCb_id _ hparse
    apply (Moves.supply supply).trans
    refine .head (.note (.message raw (requestsGet w raw.id).isSome) trivial) ?_
    split
    · next hpos =>
      rw [hmid]
      rw [hmid] at hpos
      exact moves_processResponse hread rfl (hhas hpos)
    · split
      · exact moves_emit _ _
      · exact Moves.halt _

/-- A package of any type. -/
theorem moves_dispatch {w : World} {t : ℕ} (hread : w.reading = some t) (type : ℕ) (body : Bytes) :
    Moves cfg w (dispatch cfg type body w).1 := by
  rw [dispatch]
  split
  · exact moves_handshakeResp hread body
  · split
    · exact moves_heartbeat w
    · split
      · exact moves_pcData hread body
      · split
        · exact moves_emitEvent _ w
        · exact .refl

theorem moves_pkgCb {w : World} {t : ℕ} (hread : w.reading = some t) (type : ℕ) (body : Bytes) :
    Moves cfg w (pkgCb cfg type body w) := by
  have hdisp : Moves cfg w (dispatch cfg type body (w.note (.pkg type body))).1 := by
    by_cases hbeat : type = pkgHeartbeat
    · subst hbeat
      exact moves_heartbeat_note (.pkg pkgHeartbeat body) fun w' hans _ _ => hans
    · exact .head (.note (.pkg type body) fun h => absurd h hbeat)
        (moves_dispatch (w := w.note (.pkg type body)) hread type body)
  rw [pkgCb]
  split
  · next h => rw [h] at hdisp; exact hdisp
  · next h =>
    rw [h] at hdisp
    exact hdisp.trans (Moves.andThen (moves_failWith (by decide) _))

end Packages

/-! ## Reading -/

section Reading

variable {cfg : Config}

/-- A read as a whole: its packages one after another. -/
theorem moves_clientOnTcpRead {w : World} {t : ℕ} (hread : w.reading = some t) (ms : List Bool)
    (data : Bytes) : Moves cfg w (clientOnTcpRead cfg ms data w) := by
  have hfeed : ∀ rc w', pkgParserFeed (clientHost cfg) ms w data = some (rc, w') →
      w'.reading = some t ∧ Moves cfg w w' := by
    intro rc w' hfeed
    refine feedLoop_preserves (clientHost cfg)
      (P := fun s => s.reading = some t ∧ Moves cfg w s) ?_ ?_ _ ⟨hread, .refl⟩ hfeed
    · rintro s p ⟨hs, hmoves⟩
      exact ⟨hs, hmoves.trans (Moves.other p s.heartbeat s.timeout s.handshakeOpts s.host s.supply)⟩
    · rintro type buf len s ⟨hs, hmoves⟩
      have hcb : Moves cfg s ((clientHost cfg).cb type buf len s) :=
        Moves.andThen (moves_pkgCb hs type buf.bytes)
      exact ⟨hcb.framed.reading.trans hs, hmoves.trans hcb⟩
  rw [clientOnTcpRead]
  split
  · next h => exact (hfeed _ _ h).2
  · next h => exact (hfeed _ _ h).2.trans (Moves.andThen (moves_failWith (by decide) _))
  · exact Moves.halt _

end Reading

/-! ## Requests and notifies -/

section Requests

variable {cfg : Config}

/-- A package is only queued on the current transport, and it is one of data. -/
theorem sendStages_queued {req : TcpReq} {tables : Tables} {transport : Option ℕ}
    {supply supply' : List Bool} {t : ℕ} {pkg : Option Bytes}
    (h : sendStages cfg req tables transport supply = (.queued t pkg, supply')) :
    transport = some t ∧ ∀ cb : WriteCb, cb.pkgType = pkgData → cb.Packs pkg := by
  unfold sendStages at h
  split at h
  · exact absurd h (by simp)
  · exact absurd h (by simp)
  · next buf supply₁ _ =>
    dsimp only at h
    generalize (if pkgMaxBodyBytes ≤ buf.base.length then supply₁ else (malloc supply₁).2) =
      supply₂ at h
    split at h
    · exact absurd h (by simp)
    · split at h
      · exact absurd h (by simp)
      · split at h
        · exact absurd h (by simp)
        · next hlen =>
          split at h
          · exact absurd h (by simp)
          · split at h
            · simp only [Prod.mk.injEq, SendStage.queued.injEq] at h
              refine ⟨by rw [h.1.1], fun cb hcb => ⟨supply₁, buf.base, ?_, not_le.mp hlen, fun _ => hcb⟩⟩
              rw [hcb, h.1.2]
            · exact absurd h (by simp)

/-- The request whose async is number `i` goes into the map. -/
theorem moves_requestsSet {w : World} {i t : ℕ} {data : Option Bytes} {req : TcpReq}
    (hi : w.asyncs[i]? = some req) (htype : req.type = .request)
    (hworking : w.working req.transport = true) (ht : w.transport = some t) (hread : w.reading = none)
    (hwrote : .wrote ⟨.request req, t, data⟩ ∈ w.trace)
    (hwrite : ∃ write ∈ w.writes, write.cb = .request req) :
    Moves cfg w (requestsSet cfg req { w with asyncs := w.asyncs.eraseIdx i }) := by
  have hpop : Moves cfg w { w with asyncs := w.asyncs.eraseIdx i } :=
    .single (.popAsync i req hi (.inr ⟨htype, hwrite⟩))
  rw [requestsSet]
  split
  · exact hpop.trans Moves.called
  split
  · exact hpop.trans (Moves.called.trans Moves.called)
  dsimp only
  split
  · -- a new key
    apply (Moves.called.trans Moves.called).tail
    exact .enlist i t data req hi hworking ht hread hwrote htype
  · next old hold =>
    obtain ⟨before, after, hsplit, herase⟩ := lookup_split hold
    split
    · -- the bucket holds another key
      refine hpop.trans ((Moves.called.trans Moves.called).trans ?_)
      exact .head (.halt .hang) (.single (.unlink req.id (by simp [World.halt])))
    · apply (Moves.called.trans Moves.called).trans
      refine .head (.release req.id old before after hsplit) ?_
      have hwrote' : .wrote ⟨.request req, t, data⟩ ∈
          .requestCb old.serial (-1) :: w.trace := List.mem_cons_of_mem _ hwrote
      have hdel : requestsDel req.id ({ w with asyncs := w.asyncs.eraseIdx i }.called.called) =
          { { w with asyncs := w.asyncs.eraseIdx i }.called.called with
            requests := before ++ after } := by
        rw [requestsDel, herase]
      rw [hdel]
      -- the new pair is in the map when the old request is called back
      refine .head (.enlist i t data req hi hworking ht hread hwrote' htype) ?_
      exact moves_callback (.requestCb old.serial (-1))
        { w.called.called with
          asyncs := w.asyncs.eraseIdx i, requests := before ++ after ++ [(req.id, req)] }

/-- **Requests.** The async of a request ends in its callback, or in a queued write and
an entry in the request map; where `pc_map_set` fails it ends in neither. -/
theorem moves_request {w : World} {i : ℕ} {req : TcpReq} (hi : w.asyncs[i]? = some req)
    (htype : req.type = .request) (hread : w.reading = none)
    (hfired : .asyncFired req (w.working req.transport) ∈ w.trace) :
    Moves cfg w (request cfg req { w with asyncs := w.asyncs.eraseIdx i }) := by
  rw [request]
  split
  · next hdead =>
    have hdead' : w.working req.transport = false := by simpa [World.working] using hdead
    rw [hdead'] at hfired
    exact .head (.asyncRequestCb i req 0 hi (.inr ⟨rfl, hfired⟩) htype) (moves_callback _ _)
  · next halive =>
    have hworking : w.working req.transport = true := by simpa [World.working] using halive
    rw [sendReq]
    rcases hst : sendStages cfg req w.tables w.transport w.supply with ⟨stage, supply⟩
    cases stage with
    | failed =>
      apply (Moves.supply supply).trans
      exact .head (.asyncRequestCb i req (-1) hi (.inl rfl) htype) (moves_callback _ _)
    | crashed =>
      apply (Moves.supply supply).trans
      exact .head (.halt .crash) (.single (.popAsync i req hi (.inl (by simp [World.halt]))))
    | queued t pkg =>
      obtain ⟨ht, hpacks⟩ := sendStages_queued hst
      apply (Moves.supply supply).trans
      refine .head (.queueWrite (.request req) t pkg ht ⟨List.mem_of_getElem? hi, hworking, htype⟩
        (hpacks _ rfl)) ?_
      have hwrite : (⟨.request req, t, pkg⟩ : Write) ∈ w.writes ++ [⟨.request req, t, pkg⟩] :=
        List.mem_append_right _ (List.mem_singleton_self _)
      dsimp only [World.andThen]
      split
      · exact .single (.popAsync i req hi (.inr ⟨htype, _, hwrite, rfl⟩))
      · exact moves_requestsSet hi htype hworking ht hread (List.mem_cons_self ..) ⟨_, hwrite, rfl⟩

theorem moves_notify {w : World} {i : ℕ} {req : TcpReq} (hi : w.asyncs[i]? = some req)
    (htype : req.type = .notify) (hfired : .asyncFired req (w.working req.transport) ∈ w.trace) :
    Moves cfg w (notify cfg req { w with asyncs := w.asyncs.eraseIdx i }) := by
  rw [notify]
  split
  · next hdead =>
    have hdead' : w.working req.transport = false := by simpa [World.working] using hdead
    rw [hdead'] at hfired
    exact .head (.asyncNotifyCb i req 0 hi (.inr ⟨rfl, hfired⟩) htype) (moves_callback _ _)
  · next halive =>
    have hworking : w.working req.transport = true := by simpa [World.working] using halive
    rw [sendReq]
    rcases hst : sendStages cfg req w.tables w.transport w.supply with ⟨stage, supply⟩
    apply (Moves.supply supply).trans
    cases stage with
    | failed => exact .head (.asyncNotifyCb i req (-1) hi (.inl rfl) htype) (moves_callback _ _)
    | crashed =>
      exact .head (.halt .crash) (.single (.popAsync i req hi (.inl (by simp [World.halt]))))
    | queued t pkg =>
      obtain ⟨ht, hpacks⟩ := sendStages_queued hst
      exact .single (.sendNotify i t pkg req hi hworking ht (hpacks _ rfl) htype)

/-- The async of a request or notify that is still queued. -/
theorem moves_asyncWriteCb {w : World} {i : ℕ} {req : TcpReq} (hi : w.asyncs[i]? = some req)
    (hread : w.reading = none) :
    Moves cfg w (asyncWriteCb cfg req { w with asyncs := w.asyncs.eraseIdx i }) := by
  rw [asyncWriteCb]
  refine .head (.note (.asyncFired req (w.working req.transport)) trivial) ?_
  have hfired : Event.asyncFired req (w.working req.transport) ∈
      (w.note (.asyncFired req (w.working req.transport))).trace := List.mem_cons_self ..
  split
  · next htype =>
    exact moves_request (w := w.note (.asyncFired req (w.working req.transport))) hi htype hread hfired
  · next htype =>
    exact moves_notify (w := w.note (.asyncFired req (w.working req.transport))) hi htype hfired

/-- A listed request is in the map, under its id. -/
theorem listed_split {w : World} {write : Write} {req : TcpReq} (hcb : write.cb = .request req)
    (h : write.listed w = true) :
    ∃ r before after, w.requests = before ++ (req.id, r) :: after ∧ r.serial = req.serial ∧
      (requestsDel req.id w).requests = before ++ after := by
  simp only [Write.listed, hcb] at h
  rcases hget : requestsGet w req.id with _ | r
  · simp [hget] at h
  · simp only [hget, Option.any_some, decide_eq_true_eq] at h
    obtain ⟨before, after, hsplit, herase⟩ := lookup_split hget
    exact ⟨r, before, after, hsplit, h, herase⟩

/-- The completion of a request's write. The write is settled once the callback ran. -/
theorem moves_onRequest {w : World} {i : ℕ} {write : Write} {req : TcpReq} {status : ℤ}
    (hi : w.writes[i]? = some write) (hcb : write.cb = .request req)
    (hstatus : status = 0 ∨ status = -1) :
    Moves cfg w (onRequest cfg req status ({ w with writes := w.writes.eraseIdx i }.note
      (.writeDone write status (w.working req.transport) (write.listed w)))) := by
  apply Moves.head (.note (.writeDone write status (w.working req.transport) (write.listed w))
    (List.mem_of_getElem? hi))
  have hsettled : ∀ {v : World}, .requestCb req.serial (-1) ∈ v.trace → write.cb.Settled v := by
    intro v hmem
    rw [hcb]
    exact .inl ⟨-1, hmem⟩
  have hcallback : ∀ v : World, Moves cfg (v.note (.requestCb req.serial (-1)))
      (callback cfg (.requestCb req.serial (-1)) v) := moves_callback (.requestCb req.serial (-1))
  rw [onRequest]
  split
  · next hdead =>
    have hdead' : w.working req.transport = false := Bool.of_not_eq_true hdead
    refine .head (.orphanCb write req status (write.listed w) hcb ?_) ?_
    · rw [hdead']
      exact List.mem_cons_self ..
    · refine .head (.popWrite i write hi (hsettled (List.mem_cons_self ..))) ?_
      exact hcallback ({ w with writes := w.writes.eraseIdx i }.note _)
  · next halive =>
    have hworking : w.working req.transport = true := not_not.mp halive
    split
    · next hst =>
      subst hst
      by_cases hlisted : write.listed w = true
      · -- the entry under this id is the request itself
        obtain ⟨r, before, after, hsplit, hserial, hdel⟩ := listed_split hcb hlisted
        refine .head (.release req.id r before after hsplit) ?_
        rw [hserial]
        refine .head (.popWrite i write hi (hsettled (List.mem_cons_self ..))) ?_
        rw [← hdel]
        exact hcallback (requestsDel req.id ({ w with writes := w.writes.eraseIdx i }.note _))
      · rw [Bool.not_eq_true] at hlisted
        refine .head (.lateCb write req hcb ?_) ?_
        · rw [hworking, hlisted]
          exact List.mem_cons_self ..
        · refine .head (.popWrite i write hi (hsettled (List.mem_cons_self ..))) ?_
          exact hcallback (requestsDel req.id ({ w with writes := w.writes.eraseIdx i }.note _))
    · next hst =>
      obtain rfl : status = 0 := hstatus.resolve_right hst
      refine .single (.popWrite i write hi ?_)
      rw [hcb]
      refine .inr ⟨write, write.listed w, hcb, ?_, fun hlisted => ?_⟩
      · rw [hworking]
        exact List.mem_cons_self ..
      · obtain ⟨r, before, after, hsplit, hserial, -⟩ := listed_split hcb hlisted
        refine ⟨req.id, r, ?_, hserial⟩
        change (req.id, r) ∈ w.requests
        rw [hsplit]
        exact List.mem_append_right _ (List.mem_cons_self ..)

theorem moves_onNotify {w : World} {i : ℕ} {write : Write} {req : TcpReq} {status : ℤ}
    {working listed : Bool} (hi : w.writes[i]? = some write) (hcb : write.cb = .notify req)
    (hstatus : status = 0 ∨ status = -1) :
    Moves cfg w (onNotify cfg req status
      ({ w with writes := w.writes.eraseIdx i }.note (.writeDone write status working listed))) := by
  rw [onNotify]
  split
  · exact .head (.notifyDone i write req status working listed (-1) hi hcb (.inl rfl))
      (moves_callback _ _)
  · refine .head (.notifyDone i write req status working listed status hi hcb ?_)
      (moves_callback _ _)
    rcases hstatus with rfl | rfl
    · exact .inr ⟨rfl, rfl⟩
    · exact .inl rfl

end Requests

/-! ## Connecting -/

section Connecting

variable {cfg : Config}

theorem links_finishConnect (status : ℤ) (w : World) :
    Links cfg w (finishConnect cfg status w) := by
  rw [finishConnect]
  split
  · exact .refl
  · next req _ =>
    refine .head (.setConnReq none w.nextConn) rfl (.head (.connectCb req status) rfl ?_)
    exact (moves_connectCb req status _).links

/-- On a dead transport the completions of the handshake do nothing. -/
theorem handshakeReqCb_dead {t : ℕ} {status : ℤ} {w : World} (h : w.working t = false) :
    handshakeReqCb cfg t status w = w := by
  rw [handshakeReqCb, if_pos (by simp [h])]

theorem handshakeAckCb_dead {t : ℕ} {status : ℤ} {w : World} (h : w.working t = false) :
    handshakeAckCb cfg t status w = w := by
  rw [handshakeAckCb, if_pos (by simp [h])]

/-- The completed write of a handshake request. -/
theorem links_handshakeReqCb (t : ℕ) (status : ℤ) (w : World) :
    Links cfg w (handshakeReqCb cfg t status w) := by
  rw [handshakeReqCb]
  split
  · exact .refl
  · split
    · exact (moves_failWith (by decide) w).links.trans (links_finishConnect _ _)
    · exact .refl

/-- The completed write of an ack ends the connect. -/
theorem links_handshakeAckCb {w : World} {write : Write} {status : ℤ} {working listed : Bool}
    (hcb : write.cb = .handshakeAck) (hstatus : status = 0 ∨ status = -1)
    (hdone : .writeDone write status working listed ∈ w.trace) :
    Links cfg w (handshakeAckCb cfg write.transport status w) := by
  rw [handshakeAckCb]
  split
  · exact .refl
  · next hwork =>
    dsimp only
    split
    · exact (moves_failWith (by decide) w).links.trans (links_finishConnect _ _)
    · next hne =>
      rw [hstatus.resolve_right hne] at hdone
      refine .head (.acked write.transport write working listed ?_ hcb rfl hdone) rfl
        (links_finishConnect _ _)
      simpa using hwork

/-- **`pc_connect`** refuses a client that is not `INITED`; else the client is `CONNECTING`
from then on, however far the attempt gets. -/
inductive PcConnect (cb : ConnectCb) (w : World) : World × Bool → Prop where
  /-- the state is wrong -/
  | invalid : w.state ≠ .inited → PcConnect cb w (w, false)
  /-- there is no transport -/
  | refused (supply : List Bool) : w.state = .inited →
      PcConnect cb w ({ w with state := .connecting, supply := supply }, false)
  /-- undefined behaviour -/
  | crashed (supply : List Bool) : w.state = .inited →
      PcConnect cb w ({ w with state := .connecting, supply := supply }.halt .crash, false)
  /-- the transport is freed again -/
  | notConnected (supply : List Bool) : w.state = .inited →
      (connectStages w.supply).1 = .notConnected →
      PcConnect cb w ({ setConnReq ⟨w.nextConn, cb⟩ { w with state := .connecting, supply := supply } with
        transports := w.transports ++ [.inited] }, false)
  /-- the connect is under way -/
  | launched (supply : List Bool) : w.state = .inited →
      PcConnect cb w ({ setConnReq ⟨w.nextConn, cb⟩ { w with state := .connecting, supply := supply } with
        transports := w.transports ++ [TransportState.connecting]
        connects := w.connects ++ [(w.transports.length, ConnReq.mk w.nextConn cb)] }.note
          (.connectAccepted ⟨w.nextConn, cb⟩), true)

/-- `pc_connect` launches a transport, or fails at one of its steps. -/
theorem pcConnect_cases (cb : ConnectCb) (w : World) : PcConnect cb w (pcConnect cb w) := by
  rw [pcConnect, pcConnectWith]
  split
  · next hst => exact .invalid hst
  · next hst =>
    have hst' : w.state = .inited := by simpa using hst
    rw [if_neg (by simp)]
    rcases hstages : connectStages w.supply with ⟨stage, supply⟩
    dsimp only
    cases stage with
    | refused => exact .refused supply hst'
    | crashed => exact .crashed supply hst'
    | notConnected => exact .notConnected supply hst' (congrArg Prod.fst hstages)
    | launched => exact .launched supply hst'

theorem links_pcConnect (cb : ConnectCb) (w : World) : Links cfg w (pcConnect cb w).1 := by
  have hcases := pcConnect_cases cb w
  generalize pcConnect cb w = r at hcases ⊢
  cases hcases with
  | invalid => exact .refl
  | refused supply hst => exact .head (.connecting hst) rfl (Moves.supply supply).links
  | crashed supply hst =>
    exact .head (.connecting hst) rfl ((Moves.supply supply).trans (Moves.halt .crash)).links
  | notConnected supply hst =>
    refine .head (.connecting hst) rfl (.head .transportNew rfl ?_)
    refine .head (.setConnReq (some ⟨w.nextConn, cb⟩) (w.nextConn + 1)) rfl ?_
    exact (Moves.other w.pkgParser w.heartbeat w.timeout none w.host supply).links
  | launched supply hst =>
    refine .head (.connecting hst) rfl ?_
    refine (Moves.other w.pkgParser w.heartbeat w.timeout none w.host supply).links.trans ?_
    refine .head (.setConnReq (some ⟨w.nextConn, cb⟩) (w.nextConn + 1)) rfl ?_
    exact .head (.launch ⟨w.nextConn, cb⟩ rfl) rfl .refl

/-- The error path of the connect handler. -/
theorem links_connectError {f : Failure} (hf : f ≠ .heartbeatTimeout) (req : ConnReq) (w : World) :
    Links cfg w (connectError cfg f req w) := by
  rw [connectError]
  refine .head (.setConnReq none w.nextConn) rfl ?_
  refine (moves_failWith hf { w with connReq := none }).links.trans (Links.andThen ?_)
  exact .head (.connectCb req (-1)) rfl (moves_connectCb req (-1) _).links

/-- **The result of a TCP connect.** A socket that was closed in the meantime has an error for
a result, so `uv_read_start` does not fail. -/
theorem links_onTcpConnect {w : World} {i t : ℕ} {req : ConnReq} {ok : Bool}
    (hi : w.connects[i]? = some (t, req)) (hok : deliverable w t ok = true) :
    Links cfg w
      (onTcpConnect cfg t req (uvStatus ok) { w with connects := w.connects.eraseIdx i }) := by
  rw [onTcpConnect]
  split
  · next hst =>
    refine .head (.stale i t req hi hst) rfl (.head (.setConnReq none w.nextConn) rfl ?_)
    exact .head (.connectCb req (-1)) rfl (moves_connectCb req (-1) _).links
  · next hst =>
    have hst' : w.state = .connecting := by simpa using hst
    cases ok with
    | false =>
      rw [if_pos (show uvStatus false = -1 from rfl)]
      exact .head (.refused i t req hi hst') rfl (links_connectError (by decide) ..)
    | true =>
      have hopen : w.transports[t]? ≠ some .closed := by simpa [deliverable] using hok
      rw [if_neg (show uvStatus true ≠ -1 by decide)]
      dsimp only
      rw [if_neg (by simpa [uvReadStart] using hopen)]
      refine .head (.connected i t req hi hst' hopen) rfl ?_
      have hreq : Links cfg _ _ := links_handshakeReq (transportStart t { w with
        connects := w.connects.eraseIdx i, transport := some t, state := .connected })
      split
      · next h =>
        rw [h] at hreq
        exact hreq
      · next h =>
        rw [h] at hreq
        exact hreq.trans (Links.andThen (links_connectError (by decide) ..))

/-- Only outcomes of the supply are used up. -/
theorem connectReqNew_supply (w : World) :
    ∃ supply, (connectReqNew w).1 = { w with supply := supply } := by
  rw [connectReqNew]
  split
  · exact ⟨_, rfl⟩
  · exact ⟨_, rfl⟩

/-- What precedes the attempt to reconnect only makes calls. -/
theorem reconnectPrepare_supply (w : World) :
    ∃ supply, (reconnectPrepare w).1 = { w with supply := supply } := by
  rw [reconnectPrepare]
  split
  · exact ⟨_, rfl⟩
  · have hhost : ∃ supply, (if w.host then w.called else w) = { w with supply := supply } := by
      split
      · exact ⟨_, rfl⟩
      · exact ⟨w.supply, rfl⟩
    obtain ⟨supply, hhost⟩ := hhost
    rw [hhost]
    exact connectReqNew_supply { w with supply := supply }

/-- **The attempt to reconnect** fails before `pc_connect`, or is one. -/
theorem reconnectAttempt_cases (w : World) :
    ∃ supply, reconnectAttempt w = ({ w with supply := supply }, false) ∨
      reconnectPrepare w = ({ w with supply := supply }, true) ∧
        reconnectAttempt w = pcConnect .reconnected { w with supply := supply } := by
  obtain ⟨supply, hprepare⟩ := reconnectPrepare_supply w
  refine ⟨supply, ?_⟩
  rw [reconnectAttempt]
  rcases hr : reconnectPrepare w with ⟨v, _ | _⟩ <;> rw [hr] at hprepare <;>
    obtain rfl : v = { w with supply := supply } := hprepare
  · exact .inl rfl
  · exact .inr ⟨rfl, rfl⟩

theorem links_reconnectAttempt (w : World) : Links cfg w (reconnectAttempt w).1 := by
  obtain ⟨supply, heq | ⟨-, heq⟩⟩ := reconnectAttempt_cases w
  · rw [heq]
    exact (Moves.supply supply).links
  · rw [heq]
    exact (Moves.supply supply).links.trans (links_pcConnect ..)

/-- Where the attempt fails, the flag is taken back and the client stopped. -/
theorem moves_attemptFailed (w : World) : Moves cfg w
    (w.andThen fun w => failWith cfg .reconnect { w with reconnecting := false }) :=
  Moves.andThen (Moves.head .clearReconnecting (moves_failWith (by decide) _))

/-- The reconnect timer: another attempt, or a failure. -/
theorem links_clientReconnectTimerCb (w : World) :
    Links cfg w (clientReconnectTimerCb cfg w) := by
  rw [clientReconnectTimerCb]
  have hatt : Links cfg w (reconnectAttempt w).1 := links_reconnectAttempt w
  split
  · next h => rw [h] at hatt; exact hatt
  · next h =>
    rw [h] at hatt
    exact hatt.trans (moves_attemptFailed _).links

end Connecting

end Libpomelo
