import Libpomelo.Turns

/-!
# What a handler does to the parser, the requests and the definitions

The moves of `Moves` leave open what becomes of the parser, of the pairs in the request
map and of the protobuf definitions. Here every function is a sequence of acts, each of
which says what it does to these (`Act`). Three things are not acts and stay to be looked
at where they matter: the event of a package, the write of a request with the pair filed
behind it, and the end of `pc_client_destroy` (`Tends`).
-/

namespace Libpomelo

/-- The fields that the acts are about. -/
structure Holdings : Type where
  /-- `pkg_parser` -/
  pkgParser : PkgParser
  /-- `requests` -/
  requests : List (ℕ × TcpReq)
  /-- the asyncs that wait for the loop -/
  asyncs : List TcpReq
  /-- the definitions in force -/
  tables : Tables
  /-- `proto_ver` -/
  protoVer : Option Json
  /-- the store of the definitions -/
  files : ProtoFiles

/-- What a client holds. -/
def World.holdings (w : World) : Holdings :=
  ⟨w.pkgParser, w.requests, w.asyncs, w.tables, w.protoVer, w.files⟩

/-- The event comes alone: no package, no request and no definitions. -/
def Event.plain : Event → Bool
  | .pkg _ _ | .wrote ⟨.request _, _, _⟩ | .accepted _ | .copied _ _ _ | .reset _ | .announced _
  | .shook _ _ _ _ => false
  | _ => true

/-- **An act.** -/
inductive Act (w w' : World) : Prop where
  /-- something else changes -/
  | quiet : w'.trace = w.trace → w'.holdings = w.holdings → Act w w'
  /-- and an event is recorded -/
  | event (e : Event) : w'.trace = e :: w.trace → w'.holdings = w.holdings → e.plain = true → Act w w'
  /-- requests leave the map -/
  | unlist : w'.trace = w.trace → w'.requests.Sublist w.requests →
      w'.holdings = { w.holdings with requests := w'.requests } → Act w w'
  /-- a request or notify is accepted -/
  | accept (req : TcpReq) : req.id < 2 ^ 32 → w'.trace = .accepted req :: w.trace →
      w'.holdings = { w.holdings with asyncs := w.asyncs ++ [req] } → Act w w'
  /-- `pc_proto_copy` -/
  | copy (version client server : Option Json) : w' = protoCopy version client server w → Act w w'
  /-- the connection is reset -/
  | reset (delay : Option ℤ) : w'.trace = .reset delay :: w.trace → w'.holdings = (resetFields w).holdings → Act w w'
  /-- the version to announce is looked up -/
  | load : w'.trace = w.trace → w'.holdings = { w.holdings with
        protoVer := w.protoVer.or (jsonObjectGet w.files.version "protoVersion") } → Act w w'
  /-- it is announced -/
  | announce : (w.protoVer = none → jsonObjectGet w.files.version "protoVersion" = none) →
      w'.trace = .announced w.protoVer :: w.trace → w'.holdings = w.holdings → Act w w'
  /-- a handshake response is processed -/
  | shook (transport : Option ℕ) (res : Json) : w'.trace =
        .shook transport res w'.tables.serverProtos w'.tables.clientProtos :: w.trace →
      w'.holdings = (setupSys res w).holdings → Act w w'

/-- A sequence of acts. -/
def Acts : World → World → Prop := Relation.ReflTransGen Act

section Handlers

variable {cfg : Config} {w w₁ w' : World}

theorem Acts.refl (w : World) : Acts w w := Relation.ReflTransGen.refl

theorem Acts.single (h : Act w w') : Acts w w' := Relation.ReflTransGen.single h

theorem Acts.trans (h : Acts w w₁) (h' : Acts w₁ w') : Acts w w' := Relation.ReflTransGen.trans h h'

/-- Neither events nor holdings change. -/
theorem Acts.quiet (htrace : w'.trace = w.trace) (h : w'.holdings = w.holdings) : Acts w w' :=
  .single (.quiet htrace h)

/-- One plain event is recorded. -/
theorem Acts.event {e : Event} (htrace : w'.trace = e :: w.trace) (h : w'.holdings = w.holdings)
    (he : e.plain = true) : Acts w w' :=
  .single (.event e htrace h he)

/-- What went before changed something else. -/
theorem Acts.behind (h : Acts w₁ w') (htrace : w₁.trace = w.trace) (hheld : w₁.holdings = w.holdings) :
    Acts w w' := (Acts.quiet htrace hheld).trans h

/-- What went before recorded an event. -/
theorem Acts.after {e : Event} (h : Acts w₁ w') (htrace : w₁.trace = e :: w.trace)
    (hheld : w₁.holdings = w.holdings) (he : e.plain = true) : Acts w w' :=
  (Acts.event htrace hheld he).trans h

/-- A second handler runs only where the first one has not crashed. -/
theorem Acts.andThen {f : World → World} (h : Acts w w') (hf : ∀ v : World, Acts v (f v)) :
    Acts w (w'.andThen f) := by
  rw [World.andThen]
  split
  · exact h
  · exact h.trans (hf _)

/-- A pair left the map. -/
theorem Acts.released {key : ℕ} {req : TcpReq} {before after : List (ℕ × TcpReq)}
    (h : w.requests = before ++ (key, req) :: after) :
    Acts w { w with requests := before ++ after } := by
  refine .single (.unlist rfl ?_ rfl)
  rw [h]
  exact (List.Sublist.refl before).append (List.sublist_cons_self _ _)

/-- `pc_map_del` takes one request out. -/
theorem Acts.deleted (w : World) (id : ℕ) : Acts w (requestsDel id w) :=
  .single (.unlist rfl List.eraseP_sublist rfl)

/-- Only outcomes of the supply are used up. -/
theorem Acts.supply (w : World) (supply : List Bool) : Acts w { w with supply := supply } :=
  .quiet rfl rfl

/-! ## Calls -/

/-- `pc__async_write` makes a request and announces it, or gives up with nothing allocated. -/
theorem acts_asyncWrite (type : ReqType) {id : ℕ} (hid : id < 2 ^ 32) (route : Bytes)
    (msg : Option Json) (w : World) : Acts w (asyncWrite type id route msg w) := by
  have hcases := asyncWrite_cases type id route msg w
  generalize asyncWrite type id route msg w = w' at hcases ⊢
  cases hcases with
  | failed => exact .quiet rfl rfl
  | accepted t supply req _ _ hreq =>
    refine .single (.accept req ?_ rfl rfl)
    rw [hreq]
    exact hid

/-- `pc_client_stop`, with any reconnect that acts. -/
theorem acts_stopWith {reconnect : World → World} (hrec : ∀ v : World, Acts v (reconnect v))
    (w : World) : Acts w (stopWith cfg reconnect w) := by
  have hstop : Acts w (w.note (.stop w.state w.reconnecting)) := .event rfl rfl rfl
  rw [stopWith]
  split
  · split
    · exact hstop
    · exact hstop.trans (hrec _)
  · split
    · exact hstop.trans (.quiet rfl rfl)
    · split
      · exact hstop
      · exact hstop.trans (.event rfl rfl rfl)

/-- The send of `pc_client_disconnect`; without the async it crashes. -/
theorem acts_disconnectSend (w : World) : Acts w (disconnectSend w) := by
  rw [disconnectSend]
  split
  · exact .event rfl rfl rfl
  · exact .event rfl rfl rfl

theorem acts_disconnectSet (w : World) : Acts w (disconnectSet w) := .event rfl rfl rfl

/-- Whatever the user calls from inside a callback. -/
theorem acts_userActWith {reconnect : World → World} (hrec : ∀ v : World, Acts v (reconnect v))
    (w : World) (act : UserAct) : Acts w (userActWith cfg reconnect w act) := by
  cases act with
  | stop => exact acts_stopWith hrec w
  | disconnect => exact (acts_disconnectSet w).trans (acts_disconnectSend _)
  | request route msg =>
    rw [userActWith, pcRequest]
    split
    · exact .refl w
    · exact (acts_asyncWrite .request (Nat.mod_lt _ (by decide)) route msg _).behind rfl rfl
  | notify route msg =>
    rw [userActWith, pcNotify]
    split
    · exact .refl w
    · exact acts_asyncWrite .notify (by decide) route msg w
  | protoCopy version client server => exact .single (.copy version client server rfl)

/-- A callback acts however the user answers it. -/
theorem acts_callbackWith {reconnect : World → World}
    (hrec : ∀ v : World, Acts v (reconnect v)) {e : Event} (he : e.plain = true)
    (w : World) : Acts w (callbackWith cfg reconnect e w) :=
  callbackWith_preserves (P := Acts w)
    (fun w' act h => h.trans (acts_userActWith hrec w' act)) (.event rfl rfl he)

theorem acts_releaseInReset (req : TcpReq) (w : World) : Acts w (releaseInReset cfg req w) :=
  acts_callbackWith (fun _ => .quiet rfl rfl) rfl w

/-- `pc__client_reconnect` releases the requests one by one, and what the user does in their
callbacks acts as well. -/
theorem acts_clientReconnect (w : World) : Acts w (clientReconnect cfg w) := by
  have hclear : Acts w (requestsClear (releaseInReset cfg) w.requests.length
      (stopTimers (dropTransport { w with reconnecting := true, resetting := true }))) := by
    refine requestsClear_preserves (P := Acts w) ?_ _ _ (.quiet rfl rfl)
    intro w' key req before after h hsplit
    exact (h.trans (.released hsplit)).trans (acts_releaseInReset req _)
  have hcases := clientReconnect_cases cfg w
  generalize clientReconnect cfg w = w' at hcases ⊢
  cases hcases with
  | crashed => exact hclear
  | reset => exact hclear.trans (.single (.reset _ rfl rfl))

theorem acts_clientStop (w : World) : Acts w (clientStop cfg w) :=
  acts_stopWith acts_clientReconnect w

/-- A handler that fails notes it and stops the client. -/
theorem acts_failWith (f : Failure) (w : World) : Acts w (failWith cfg f w) :=
  (acts_clientStop (w.note (.failure f))).after rfl rfl rfl

/-- The callbacks outside a reset. -/
theorem acts_callback {e : Event} (he : e.plain = true) (w : World) :
    Acts w (callback cfg e w) :=
  acts_callbackWith acts_clientReconnect he w

theorem acts_emitEvent (event : String) (w : World) : Acts w (emitEvent cfg event w) :=
  acts_callback rfl w

theorem acts_condBroadcast (w : World) : Acts w (condBroadcast w) := by
  rw [condBroadcast]
  split
  · exact .event rfl rfl rfl
  · exact .event rfl rfl rfl

/-- The callback of a connect, and the release of its request behind it. -/
theorem acts_connectCb (req : ConnReq) (status : ℤ) (w : World) :
    Acts w (connectCb cfg req status w) := by
  have hnote : Acts w (w.note (.connectCb req status)) := .event rfl rfl rfl
  rw [connectCb]
  split
  · exact acts_callback rfl w
  · dsimp only
    split
    · exact hnote.trans (acts_clientStop _)
    · exact hnote.trans (acts_condBroadcast _)
  · dsimp only
    split
    · exact hnote.trans (acts_clientStop _)
    · exact hnote.trans (acts_emitEvent _ _)
  · dsimp only
    split
    · exact hnote.trans ((acts_emitEvent "reconnect" _).behind rfl rfl)
    · exact hnote.trans ((acts_clientStop _).behind rfl rfl)

/-! ## Packages -/

/-- A write that belongs to no request. -/
theorem acts_queueWrite {cb : WriteCb} (hcb : ∀ req, cb ≠ .request req) (t : ℕ)
    (data : Option Bytes) (w : World) : Acts w (queueWrite cb t data w) := by
  refine .event rfl rfl ?_
  cases cb with
  | request req => exact absurd rfl (hcb req)
  | _ => rfl

/-- A heartbeat is written, or given up on the way. -/
theorem acts_heartbeatReq (w : World) : Acts w (heartbeatReq w).1 := by
  obtain ⟨hcases, -⟩ := heartbeatReq_cases w
  generalize heartbeatReq w = r at hcases ⊢
  cases hcases with
  | failed | crashed => exact .quiet rfl rfl
  | queued => exact .event rfl rfl rfl

/-- The ack is written, or given up on the way. -/
theorem acts_handshakeAck (w : World) : Acts w (handshakeAck w) := by
  have hcases := handshakeAck_cases w
  generalize handshakeAck w = w' at hcases ⊢
  cases hcases with
  | failed | crashed => exact .quiet rfl rfl
  | queued => exact .event rfl rfl rfl

/-- A version that is not known after the lookup is not in the file either. -/
theorem loadProtoVer_none (h : (loadProtoVer w).protoVer = none) :
    jsonObjectGet (loadProtoVer w).files.version "protoVersion" = none := by
  rw [loadProtoVer] at h ⊢
  split at h
  · next proto hver hfile =>
    rw [show (w.files.version = some proto) from hfile]
    exact h
  · next hno =>
    rcases hfile : w.files.version with _ | proto
    · rfl
    · exact absurd hfile (hno proto h)

/-- The version comes from the file if it is not known, and only then. -/
theorem acts_loadProtoVer (w : World) : Acts w (loadProtoVer w) := by
  rw [loadProtoVer]
  split
  · next proto hver hfile =>
    refine .single (.load rfl ?_)
    rw [hver, hfile]
    rfl
  · next hno =>
    refine .single (.load rfl ?_)
    rcases hver : w.protoVer with _ | version
    · rcases hfile : w.files.version with _ | proto
      · rw [World.holdings, hver]
        rfl
      · exact absurd hfile (hno proto hver)
    · rw [World.holdings, hver]
      rfl

/-- The handshake sends the version that `pc__load_proto_ver` left. -/
theorem acts_handshakeReq (w : World) : Acts w (handshakeReq cfg w).1 := by
  have hload := acts_loadProtoVer w
  have hnone := @loadProtoVer_none w
  have hcases := handshakeReq_cases cfg w
  generalize loadProtoVer w = w₁ at hload hnone hcases
  generalize handshakeReq cfg w = r at hcases ⊢
  cases hcases with
  | failed | crashed => exact hload.trans (.quiet rfl rfl)
  | stranded t data supply =>
    have hwrite : Acts w₁ (queueWrite .handshakeReq t (some data) { w₁ with supply := supply }) :=
      (acts_queueWrite (by simp) _ _ _).behind rfl rfl
    exact (hload.trans hwrite).trans (.quiet rfl rfl)
  | queued t data supply =>
    have hwrite : Acts w₁ (queueWrite .handshakeReq t (some data) { w₁ with supply := supply }) :=
      (acts_queueWrite (by simp) _ _ _).behind rfl rfl
    exact (hload.trans hwrite).trans (.single (.announce hnone rfl rfl))

theorem acts_heartbeat (w : World) : Acts w (heartbeat w) := by
  rw [heartbeat]
  split <;> exact .quiet rfl rfl

theorem acts_heartbeatCb (w : World) : Acts w (heartbeatCb cfg w) := by
  have hreq : Acts w (heartbeatReq { w with
      heartbeatTimer := w.heartbeatTimer.map uvTimerStop }).1 :=
    (acts_heartbeatReq _).behind rfl rfl
  rw [heartbeatCb]
  generalize heartbeatReq { w with heartbeatTimer := w.heartbeatTimer.map uvTimerStop } = r
    at hreq ⊢
  rcases r with ⟨w₁, _ | _⟩
  · exact hreq.andThen (acts_failWith _)
  · exact hreq.trans (.quiet rfl rfl)

/-- A heartbeat that is overdue: the `timeout` event, and a stop. -/
theorem acts_timeoutCb (w : World) : Acts w (timeoutCb cfg w) := by
  have hemit : Acts w (emitEvent cfg "timeout"
      ({ w with timeoutTimer := w.timeoutTimer.map uvTimerStop }.note .timedOut)) :=
    (acts_emitEvent "timeout" _).after (e := .timedOut) rfl rfl rfl
  exact hemit.andThen (acts_failWith _)

theorem acts_handshakeTimeoutCb (w : World) : Acts w (handshakeTimeoutCb cfg w) := by
  have hemit : Acts w (emitEvent cfg "timeout"
      { w with handshakeTimer := w.handshakeTimer.map uvTimerStop }) :=
    (acts_emitEvent "timeout" _).behind rfl rfl
  exact hemit.andThen (acts_failWith _)

/-- `handshake_cb` is asked about the response, whatever it answers. -/
theorem acts_askUser (res : Json) (w : World) : Acts w (askUser cfg res w).1 := by
  rw [askUser]
  split
  · exact .refl w
  · exact acts_callback rfl w

/-- What a response brings. -/
theorem setupSys_holdings (res : Json) (w : World) : (setupSys res w).holdings = { w.holdings with
    tables := (setupSys res w).tables
    protoVer := (setupSys res w).protoVer
    files := (setupSys res w).files } := by
  have hparser : (setupSys res w).pkgParser = w.pkgParser := by
    rw [setupSys]
    split
    · rw [setupProtos]
      split <;> rw [setupDictionary] <;> split <;> rw [setupHeartbeat] <;> dsimp only <;> split <;> rfl
    · rfl
  rw [World.holdings, hparser, (inert_setupSys res w).eq]
  rfl

/-- The `sys` part of a response is taken over without an event. -/
theorem setupSys_trace (res : Json) (w : World) : (setupSys res w).trace = w.trace := by
  rw [(inert_setupSys res w).eq]

/-- A handshake response: the tables and the version may change, the acts say to what. -/
theorem acts_handshakeResp (body : Bytes) (w : World) :
    Acts w (handshakeResp cfg body w).1 := by
  rw [handshakeResp]
  split
  · exact .quiet rfl rfl
  · next timer _ =>
    dsimp only
    split
    · exact .quiet rfl rfl
    · next res _ =>
      split
      · exact .quiet rfl rfl
      · have hshook : ∀ v : World, Acts v ((setupSys res v).note (.shook (setupSys res v).transport res
            (setupSys res v).tables.serverProtos (setupSys res v).tables.clientProtos)) :=
          fun v => .single (.shook (setupSys res v).transport res
            (congrArg (_ :: ·) (setupSys_trace res v)) rfl)
        have hsetup := (hshook { w with handshakeTimer := some (uvTimerStop timer) }).behind (w := w)
          rfl rfl
        generalize setupSys res { w with handshakeTimer := some (uvTimerStop timer) } = w₁
          at hsetup ⊢
        have hask : Acts w (askUser cfg res (w₁.note
            (.shook w₁.transport res w₁.tables.serverProtos w₁.tables.clientProtos))).1 :=
          hsetup.trans (acts_askUser res _)
        generalize askUser cfg res
          (w₁.note (.shook w₁.transport res w₁.tables.serverProtos w₁.tables.clientProtos)) = r
          at hask ⊢
        split
        · refine Acts.andThen ?_ acts_heartbeat
          exact hask.andThen fun v => (acts_handshakeAck _).after rfl rfl rfl
        · exact hask.andThen acts_heartbeat

/-- A response takes its request out and calls back. -/
theorem acts_processResponse (id : ℕ) (w : World) : Acts w (processResponse cfg id w) := by
  rw [processResponse]
  split
  · exact .refl w
  · exact (Acts.deleted w id).trans (acts_callback rfl _)

/-- A data package is parsed and goes to a request or to the listeners. -/
theorem acts_pcData (body : Bytes) (w : World) : Acts w (pcData cfg body w).1 := by
  rw [pcData]
  dsimp only
  split
  · exact .refl w
  · exact .quiet rfl rfl
  · split
    · exact (acts_processResponse _ _).after rfl rfl rfl
    · split
      · exact (acts_callback rfl _).after rfl rfl rfl
      · exact .event rfl rfl rfl

/-- Each type of package has its handler. -/
theorem acts_dispatch (type : ℕ) (body : Bytes) (w : World) :
    Acts w (dispatch cfg type body w).1 := by
  rw [dispatch]
  split
  · exact acts_handshakeResp body w
  split
  · exact acts_heartbeat w
  split
  · exact acts_pcData body w
  split
  · exact acts_emitEvent _ w
  · exact .refl w

/-- **`pc__pkg_cb`** after its event. -/
theorem acts_pkgCb (type : ℕ) (body : Bytes) (w : World) :
    Acts (w.note (.pkg type body)) (pkgCb cfg type body w) := by
  have hdispatch : Acts (w.note (.pkg type body))
      (dispatch cfg type body (w.note (.pkg type body))).1 := acts_dispatch type body _
  rw [pkgCb]
  generalize dispatch cfg type body (w.note (.pkg type body)) = r at hdispatch ⊢
  rcases r with ⟨w₁, _ | _⟩
  · exact hdispatch.andThen (acts_failWith _)
  · exact hdispatch

/-! ## The other handlers -/

theorem acts_finishConnect (status : ℤ) (w : World) : Acts w (finishConnect cfg status w) := by
  rw [finishConnect]
  split
  · exact .refl w
  · exact (acts_connectCb _ status _).behind rfl rfl

/-- A send queues its write, or stops on the way; a request is not sent from here. -/
theorem acts_sendReq (req : TcpReq) {cb : WriteCb} (hcb : ∀ req, cb ≠ .request req) (w : World) :
    Acts w (sendReq cfg req cb w).1 := by
  rw [sendReq]
  split
  · exact .quiet rfl rfl
  · exact .quiet rfl rfl
  · next t pkg supply _ =>
    exact (Acts.supply w supply).trans (acts_queueWrite hcb t pkg _)

/-- `pc__notify` writes the message or calls back with an error. -/
theorem acts_notify (req : TcpReq) (w : World) : Acts w (notify cfg req w) := by
  have hsend : Acts w (sendReq cfg req (.notify req) w).1 := acts_sendReq req (by simp) w
  rw [notify]
  split
  · exact acts_callback rfl w
  generalize sendReq cfg req (.notify req) w = r at hsend ⊢
  rcases r with ⟨w₁, _ | _⟩
  · exact hsend.trans (acts_callback rfl w₁)
  · exact hsend

/-- **`pc__request`** calls back, crashes, or writes the request and files it. -/
theorem request_cases (req : TcpReq) (w : World) :
    Acts w (request cfg req w) ∨ ∃ t pkg supply,
      sendStages cfg req w.tables w.transport w.supply = (.queued t pkg, supply) ∧
        request cfg req w = (queueWrite (.request req) t pkg { w with supply := supply }).andThen
          (requestsSet cfg req) := by
  rw [request, sendReq]
  split
  · exact .inl (acts_callback rfl w)
  rcases hstages : sendStages cfg req w.tables w.transport w.supply with ⟨stage, supply⟩
  cases stage with
  | failed => exact .inl ((acts_callback rfl _).behind rfl rfl)
  | crashed => exact .inl (.quiet rfl rfl)
  | queued t pkg => exact .inr ⟨t, pkg, supply, rfl, rfl⟩

/-- **`pc_map_set`** fails, hangs, or files the request in the place of another with its id. -/
theorem requestsSet_cases (req : TcpReq) (w : World) :
    Acts w (requestsSet cfg req w) ∨ ∃ supply, Acts { w with
      supply := supply
      requests := (requestsDel req.id w).requests ++ [(req.id, req)] } (requestsSet cfg req w) := by
  rw [requestsSet]
  split
  · exact .inl (.quiet rfl rfl)
  split
  · exact .inl (.quiet rfl rfl)
  dsimp only
  split
  · next hnew =>
    have hsame : (requestsDel req.id w).requests = w.requests := by
      refine List.eraseP_of_forall_not fun kv hkv hkey => ?_
      have hother := List.lookup_eq_none_iff.mp hnew kv hkv
      rw [of_decide_eq_true hkey] at hother
      exact absurd hother (by simp)
    refine .inr ⟨w.called.called.supply, ?_⟩
    rw [hsame]
    exact .refl _
  · next old hold =>
    split
    · exact .inl ((Acts.deleted w req.id).trans (.quiet rfl rfl))
    · exact .inr ⟨w.called.called.supply, acts_callback rfl _⟩

/-- A failed write of a request takes it out of the table. -/
theorem acts_onRequest (req : TcpReq) (status : ℤ) (w : World) :
    Acts w (onRequest cfg req status w) := by
  rw [onRequest]
  split
  · exact acts_callback rfl w
  split
  · exact (Acts.deleted w req.id).trans (acts_callback rfl _)
  · exact .refl w

theorem acts_onNotify (req : TcpReq) (status : ℤ) (w : World) :
    Acts w (onNotify cfg req status w) := by
  rw [onNotify]
  split <;> exact acts_callback rfl w

/-- A failed write of the handshake ends the connect. -/
theorem acts_handshakeReqCb (t : ℕ) (status : ℤ) (w : World) :
    Acts w (handshakeReqCb cfg t status w) := by
  rw [handshakeReqCb]
  split
  · exact .refl w
  split
  · exact (acts_failWith _ w).trans (acts_finishConnect status _)
  · exact .refl w

/-- The ack ends the connect in either case. -/
theorem acts_handshakeAckCb (t : ℕ) (status : ℤ) (w : World) :
    Acts w (handshakeAckCb cfg t status w) := by
  rw [handshakeAckCb]
  split
  · exact .refl w
  dsimp only
  split
  · exact (acts_failWith _ w).trans (acts_finishConnect status _)
  · exact (acts_finishConnect status _).after (e := .acked w.state) rfl rfl rfl

/-- A failed heartbeat stops the client, or what it takes for one. -/
theorem acts_heartbeatReqCb (status : ℤ) (w : World) :
    Acts w (heartbeatReqCb cfg status w) := by
  rw [heartbeatReqCb]
  split
  · split
    · exact acts_clientStop w
    · exact .quiet rfl rfl
  · exact .refl w

/-- A write that completes reports to its own callback. -/
theorem acts_writeCb (write : Write) (status : ℤ) (w : World) :
    Acts w (writeCb cfg write status w) := by
  rw [writeCb]
  split
  · exact (acts_handshakeReqCb _ status _).after rfl rfl rfl
  · exact (acts_handshakeAckCb _ status _).after rfl rfl rfl
  · exact (acts_heartbeatReqCb status _).after rfl rfl rfl
  · exact (acts_onRequest _ status _).after rfl rfl rfl
  · exact (acts_onNotify _ status _).after rfl rfl rfl

/-- `pc_connect` starts a transport or undoes what it began. -/
theorem acts_pcConnect (cb : ConnectCb) (w : World) : Acts w (pcConnect cb w).1 := by
  have hcases := pcConnect_cases cb w
  generalize pcConnect cb w = r at hcases ⊢
  cases hcases with
  | launched => exact .event rfl rfl rfl
  | _ => exact .quiet rfl rfl

/-- The error path of `pc__on_tcp_connect`. -/
theorem acts_connectError (f : Failure) (req : ConnReq) (w : World) :
    Acts w (connectError cfg f req w) := by
  have hfail : Acts w (failWith cfg f { w with connReq := none }) :=
    (acts_failWith f _).behind rfl rfl
  exact hfail.andThen (acts_connectCb req (-1))

/-- A connection that came about or not. -/
theorem acts_onTcpConnect (t : ℕ) (req : ConnReq) (status : ℤ) (w : World) :
    Acts w (onTcpConnect cfg t req status w) := by
  rw [onTcpConnect]
  split
  · exact (acts_connectCb req (-1) _).behind rfl rfl
  split
  · exact (acts_connectError _ req _).behind rfl rfl
  dsimp only
  split
  · exact (acts_connectError _ req _).behind rfl rfl
  · have hreq : Acts w (handshakeReq cfg
        (transportStart t { w with transport := some t, state := .connected })).1 :=
      (acts_handshakeReq _).behind rfl rfl
    generalize handshakeReq cfg
      (transportStart t { w with transport := some t, state := .connected }) = r at hreq ⊢
    rcases r with ⟨w₁, _ | _⟩
    · exact hreq.andThen (acts_connectError _ req)
    · exact hreq

/-- The reconnect timer tries again, and fails like a handler. -/
theorem acts_clientReconnectTimerCb (w : World) :
    Acts w (clientReconnectTimerCb cfg w) := by
  have hattempt : Acts w (reconnectAttempt w).1 := by
    obtain ⟨supply, heq | ⟨-, heq⟩⟩ := reconnectAttempt_cases w
    · rw [heq]
      exact .supply w supply
    · rw [heq]
      exact (Acts.supply w supply).trans (acts_pcConnect _ _)
  rw [clientReconnectTimerCb]
  generalize reconnectAttempt w = r at hattempt ⊢
  rcases r with ⟨w₁, _ | _⟩
  · exact hattempt.andThen fun v => (acts_failWith _ _).behind rfl rfl
  · exact hattempt

/-- The connect calls of the user, up to the start of the worker. -/
theorem acts_clientConnect (call : ConnectCall) (w : World) :
    Acts w (clientConnect call w) := by
  have hprepare : Acts w (connectPrepare call w).1 := by
    have hnew : ∀ v : World, Acts v (connectReqNew v).1 := by
      intro v
      obtain ⟨supply, heq⟩ := connectReqNew_supply v
      rw [heq]
      exact .supply v supply
    cases call with
    | connect | connect3 => exact hnew w
    | connect2 => exact .refl w
    | connect4 =>
      simp only [connectPrepare]
      split
      · exact .quiet rfl rfl
      · exact (hnew _).behind rfl rfl
  rw [clientConnect]
  generalize connectPrepare call w = r at hprepare ⊢
  rcases r with ⟨w₁, _ | _⟩
  · exact hprepare
  · have hconnect : Acts w (pcConnect call.cb w₁).1 := hprepare.trans (acts_pcConnect ..)
    dsimp only
    generalize pcConnect call.cb w₁ = r at hconnect ⊢
    rcases r with ⟨w₂, _ | _⟩
    · exact hconnect
    · exact hconnect.trans (.quiet rfl rfl)

/-- `pc_map_clear` of the requests calls back for each of them. -/
theorem acts_requestsClear (n : ℕ) (w : World) :
    Acts w (requestsClear (releaseRequest cfg) n w) := by
  refine requestsClear_preserves (P := Acts w) ?_ n w (.refl w)
  intro w' key req before after h hsplit
  exact (h.trans (.released hsplit)).trans (acts_callback rfl _)

end Handlers

/-! ## Invariants

What the acts keep, the handlers keep. A read adds the parser and the event of a package, the
async of a request adds its write and its pair. -/

section Rules

variable {cfg : Config} {P : World → Prop} {w w' : World}

/-- By induction on the acts. -/
theorem Acts.preserves (hact : ∀ v v', P v → Act v v' → P v') (h : Acts w w') (hw : P w) : P w' :=
  preserved_of_reflTransGen hact h hw

/-- A feed keeps what the acts, a change of the parser and the event of a package keep. -/
theorem feed_preserves (hact : ∀ v v', P v → Act v v' → P v')
    (hparser : ∀ v p, P v → P { v with pkgParser := p })
    (hpkg : ∀ type body v, P v → P (v.note (.pkg type body)))
    {ms : List Bool} {data : Bytes} {rc : ℤ} (hw : P w)
    (h : pkgParserFeed (clientHost cfg) ms w data = some (rc, w')) : P w' := by
  refine feedLoop_preserves (clientHost cfg) hparser ?_ _ hw h
  intro type buf len v hv
  change P (v.andThen (pkgCb cfg type buf.bytes))
  rw [World.andThen]
  split
  · exact hv
  · exact (acts_pkgCb type buf.bytes v).preserves hact (hpkg type buf.bytes v hv)

/-- A read is a feed, and a failure where the parser reports an error. -/
theorem clientOnTcpRead_preserves (hact : ∀ v v', P v → Act v v' → P v')
    (hparser : ∀ v p, P v → P { v with pkgParser := p })
    (hpkg : ∀ type body v, P v → P (v.note (.pkg type body)))
    (ms : List Bool) (data : Bytes) (hw : P w) : P (clientOnTcpRead cfg ms data w) := by
  rw [clientOnTcpRead]
  split
  · next h => exact feed_preserves hact hparser hpkg hw h
  · next v _ h =>
    have hfail : Acts v (v.andThen (failWith cfg .feed)) :=
      (Acts.refl v).andThen (acts_failWith .feed)
    exact hfail.preserves hact (feed_preserves hact hparser hpkg hw h)
  · exact hact _ _ hw (.quiet rfl rfl)

/-- The async of a request keeps what the acts, its write and its entry in the table keep. -/
theorem asyncWriteCb_preserves (hact : ∀ v v', P v → Act v v' → P v') (req : TcpReq)
    (hwrite : ∀ v t pkg, P v → P (queueWrite (.request req) t pkg v))
    (hfile : ∀ v requests, P v → P { v with requests := requests }) (hw : P w) :
    P (asyncWriteCb cfg req w) := by
  have hset : ∀ v : World, P v → P (requestsSet cfg req v) := by
    intro v hv
    rcases requestsSet_cases req v with hacts | ⟨supply, hacts⟩
    · exact hacts.preserves hact hv
    · exact hacts.preserves hact (hact _ _ (hfile v _ hv) (.quiet rfl rfl))
  have hrequest : ∀ v : World, P v → P (request cfg req v) := by
    intro v hv
    rcases request_cases req v with hacts | ⟨t, pkg, supply, -, heq⟩
    · exact hacts.preserves hact hv
    · have hqueued := hwrite _ t pkg (hact _ { v with supply := supply } hv (.quiet rfl rfl))
      rw [heq, World.andThen]
      split
      · exact hqueued
      · exact hset _ hqueued
  have hfired : P (w.note (.asyncFired req (w.working req.transport))) :=
    hact _ _ hw (.event _ rfl rfl rfl)
  rw [asyncWriteCb]
  split
  · exact hrequest _ hfired
  · exact (acts_notify req _).preserves hact hfired

end Rules

/-! ## Turns -/

section Turns

variable {cfg : Config} {w w' : World}

/-- The client as the feed finds it, when bytes arrive on the transport `t`. -/
def World.receives (supply : List Bool) (t : ℕ) (w : World) : World :=
  { w with supply := supply, reading := some t }.note (.read t)

/-- What a turn of the threads does to the parser and the requests. -/
inductive Tends (cfg : Config) (supply : List Bool) (w : World) : World → Prop where
  /-- no package is handled, and no request is written -/
  | acts {w' : World} : Acts w w' → Tends cfg supply w w'
  /-- bytes are fed -/
  | reads (t : ℕ) (ms : List Bool) (data : Bytes) :
      Tends cfg supply w
        { clientOnTcpRead cfg ms data (w.receives supply t) with reading := none }
  /-- the async of a request or notify fires -/
  | fires (i : ℕ) (req : TcpReq) : w.asyncs[i]? = some req →
      Tends cfg supply w (asyncWriteCb cfg req
        { w with supply := supply, asyncs := w.asyncs.eraseIdx i })
  /-- the client is freed -/
  | frees : Tends cfg supply w (clientFree cfg { w with supply := supply })

/-- The outcomes that a label brings along change nothing. -/
theorem Acts.tends {supply : List Bool}
    (h : Acts { w with supply := supply } w') : Tends cfg supply w w' :=
  .acts (h.behind rfl rfl)

/-- A turn of the loop. -/
theorem tends_loopStep {supply : List Bool} {l : Label}
    (h : loopStep cfg { w with supply := supply } l = some w') : Tends cfg supply w w' := by
  cases l with
  | tcpConnect i ok =>
    simp only [loopStep] at h
    split at h
    · simp only [Option.ite_none_right_eq_some, Option.some.injEq] at h
      obtain ⟨-, rfl⟩ := h
      exact .acts ((acts_onTcpConnect _ _ _ _).behind rfl rfl)
    · exact absurd h (by simp)
  | writeDone i ok =>
    simp only [loopStep] at h
    split at h
    · simp only [Option.ite_none_right_eq_some, Option.some.injEq] at h
      obtain ⟨-, rfl⟩ := h
      exact .acts ((acts_writeCb _ _ _).behind rfl rfl)
    · exact absurd h (by simp)
  | asyncWrite i =>
    simp only [loopStep] at h
    split at h
    · next req hi =>
      obtain rfl := Option.some.inj h
      exact .fires i req hi
    · exact absurd h (by simp)
  | tcpRead t ms nread =>
    obtain rfl := Option.some.inj h
    unfold tpOnTcpRead
    split
    · exact .acts (.supply w supply)
    cases nread with
    | error => exact .acts ((acts_failWith .read _).behind rfl rfl)
    | nothing => exact .acts (.supply w supply)
    | bytes data => exact .reads t ms data
  | heartbeatTimer =>
    simp only [loopStep, Option.ite_none_right_eq_some, Option.some.injEq] at h
    obtain ⟨-, rfl⟩ := h
    exact .acts ((acts_heartbeatCb _).behind rfl rfl)
  | timeoutTimer =>
    simp only [loopStep, Option.ite_none_right_eq_some, Option.some.injEq] at h
    obtain ⟨-, rfl⟩ := h
    exact .acts ((acts_timeoutCb _).behind rfl rfl)
  | handshakeTimer =>
    simp only [loopStep, Option.ite_none_right_eq_some, Option.some.injEq] at h
    obtain ⟨-, rfl⟩ := h
    exact .acts ((acts_handshakeTimeoutCb _).behind rfl rfl)
  | reconnectTimer =>
    simp only [loopStep, Option.ite_none_right_eq_some, Option.some.injEq] at h
    obtain ⟨-, rfl⟩ := h
    exact .acts ((acts_clientReconnectTimerCb _).behind rfl rfl)
  | closeAsync =>
    simp only [loopStep, Option.ite_none_right_eq_some, Option.some.injEq] at h
    obtain ⟨-, rfl⟩ := h
    have hnote : ∀ v : World, Acts v (v.note .closeHandled) := fun v => .event rfl rfl rfl
    exact .acts (((acts_clientStop _).andThen hnote).behind rfl rfl)
  | loopEnd =>
    simp only [loopStep, Option.ite_none_right_eq_some, Option.some.injEq] at h
    obtain ⟨-, rfl⟩ := h
    exact .acts (.quiet rfl rfl)
  | _ => exact absurd h (by simp [loopStep])

/-- The worker behind its loop. -/
theorem acts_workerTail (h : workerTail cfg w = some w') : Acts w w' := by
  rw [workerTail] at h
  split at h
  · obtain rfl := Option.some.inj h
    have hemit : Acts w (emitEvent cfg "disconnect" w) := acts_emitEvent _ w
    exact hemit.trans (.quiet rfl rfl)
  · obtain rfl := Option.some.inj h
    exact (acts_condBroadcast w).trans (.quiet rfl rfl)
  · exact absurd h (by simp)

/-- `pc_client_join` waits, and then only notes that the worker is gone. -/
theorem acts_clientJoin (h : clientJoin w = some w') : Acts w w' := by
  rw [clientJoin] at h
  split at h
  · obtain rfl := Option.some.inj h
    exact .quiet rfl rfl
  · obtain rfl := Option.some.inj h
    exact .event (e := .joined) rfl rfl rfl
  · obtain rfl := Option.some.inj h
    exact .event (e := .joined) rfl rfl rfl
  · exact absurd h (by simp)

/-- `pc_client_destroy`, one of its tests and calls at a time; the last one frees. -/
theorem tends_clientDestroy {supply : List Bool}
    (h : clientDestroy cfg { w with supply := supply } = some w') : Tends cfg supply w w' := by
  rw [clientDestroy] at h
  split at h
  · obtain rfl := Option.some.inj h
    exact .acts (.quiet rfl rfl)
  · obtain rfl := Option.some.inj h
    exact .acts (.quiet rfl rfl)
  · obtain rfl := Option.some.inj h
    exact .acts (.event rfl rfl rfl)
  · obtain rfl := Option.some.inj h
    exact Acts.tends ((acts_disconnectSend _).trans (.quiet rfl rfl))
  · obtain ⟨w₁, hjoin, rfl⟩ := Option.map_eq_some_iff.mp h
    exact Acts.tends ((acts_clientJoin hjoin).trans (.quiet rfl rfl))
  · obtain rfl := Option.some.inj h
    exact .frees
  · exact absurd h (by simp)

/-- A call of the user. -/
theorem tends_userStep {supply : List Bool} {l : Label}
    (h : userStep cfg { w with supply := supply } l = some w') : Tends cfg supply w w' := by
  cases l with
  | connect call =>
    simp only [userStep, Option.ite_none_right_eq_some, Option.some.injEq] at h
    obtain ⟨-, rfl⟩ := h
    exact (acts_clientConnect call _).tends
  | call act =>
    have hact : Acts { w with supply := supply }
      (userAct cfg { w with supply := supply } act) := acts_userActWith acts_clientReconnect _ act
    cases act with
    | disconnect => exact absurd h (by simp [userStep])
    | _ =>
      simp only [userStep, Option.ite_none_right_eq_some, Option.some.injEq] at h
      obtain ⟨-, rfl⟩ := h
      exact hact.tends
  | disconnectSend =>
    simp only [userStep, Option.ite_none_right_eq_some, Option.some.injEq] at h
    obtain ⟨-, rfl⟩ := h
    exact Acts.tends ((acts_disconnectSend _).trans (.quiet rfl rfl))
  | disconnectSet =>
    simp only [userStep, Option.ite_none_right_eq_some, Option.some.injEq] at h
    obtain ⟨-, rfl⟩ := h
    exact .acts (.event rfl rfl rfl)
  | condWait | connectReturn =>
    simp only [userStep, Option.ite_none_right_eq_some, Option.some.injEq] at h
    obtain ⟨-, rfl⟩ := h
    exact .acts (.quiet rfl rfl)
  | join =>
    simp only [userStep, Option.ite_none_right_eq_some] at h
    obtain ⟨-, hjoin⟩ := h
    exact (acts_clientJoin hjoin).tends
  | destroy => exact tends_clientDestroy h
  | _ => exact absurd h (by simp [userStep])

/-- **A step** is one of these turns. -/
theorem step_tends {supply : List Bool} {l : Label} (h : step cfg supply l w = some w') :
    Tends cfg supply w w' := by
  rw [step] at h
  split at h
  · exact absurd h (by simp)
  · dsimp only at h
    split at h
    · next hu =>
      obtain rfl := Option.some.inj h
      exact tends_userStep hu
    · split at h
      · exact (acts_workerTail h).tends
      · split at h
        · exact tends_loopStep h
        · exact absurd h (by simp)

/-- Nobody steps in a client that is freed. -/
theorem step_not_freed {supply : List Bool} {l : Label} (h : step cfg supply l w = some w') :
    w.user ≠ .freed := by
  intro hfreed
  rw [step, if_pos (.inr hfreed)] at h
  exact absurd h (by simp)

/-- **Freeing the client** calls the pending requests back first. -/
theorem clientFree_cases (cfg : Config) (w : World) :
    ∃ v, Acts w v ∧ (v.halted.isSome = true ∧ clientFree cfg w = v ∨
      clientFree cfg w = { v with
        pkgParser := pkgParserClose v.pkgParser, handshakeOpts := none
        tables := ⟨none, none, none, none⟩, protoVer := none, host := false, user := .freed }) := by
  refine ⟨requestsClear (releaseRequest cfg) w.requests.length w, acts_requestsClear _ w, ?_⟩
  rw [clientFree, World.andThen]
  split
  · next hhalt => exact .inl ⟨hhalt, rfl⟩
  · exact .inr rfl

end Turns

end Libpomelo
