import Libpomelo.Moves

/-!
# What a turn can do

`step` looks at the label, the user's thread and the worker; `Turn` lists what comes out
of it. A handler that leaves connect requests alone is a sequence of moves; the others
are kept as they are, and `Turn.links` reduces them to moves where that is enough. The
turns of the user's thread through `pc_client_destroy` and the end of the worker change
little else than where the threads stand.
-/

namespace Libpomelo

/-- The write belongs to the handshake. -/
def WriteCb.shakes : WriteCb → Bool
  | .handshakeReq | .handshakeAck => true
  | _ => false

/-- The label completes a write of the handshake. -/
def Label.Shakes (w : World) : Label → Prop
  | .writeDone i _ => w.writes[i]?.any (fun write => write.cb.shakes) = true
  | _ => False

instance (w : World) (l : Label) : Decidable (l.Shakes w) := by
  unfold Label.Shakes
  split <;> infer_instance

/-- The user's thread goes from one point to the next, given the state it reads. -/
inductive UserGoes (w : World) : Label → UserPc → Prop where
  | wait : w.user = .connectWait → UserGoes w .condWait .waiting
  | wake : w.user = .woken → UserGoes w .connectReturn .idle
  | disconnect : w.user = .idle → UserGoes w .disconnectSet .disconnecting
  | disconnected : w.user = .disconnecting → UserGoes w .disconnectSend .idle
  | destroyInited : w.user = .idle → w.state = .inited → UserGoes w .destroy .destroyFinally
  | destroyNotInited : w.user = .idle → w.state ≠ .inited → UserGoes w .destroy .destroyNotInited
  | destroyClosed : w.user = .destroyNotInited → w.state = .closed →
      UserGoes w .destroy .destroyFinally
  | destroyOpen : w.user = .destroyNotInited → w.state ≠ .closed → UserGoes w .destroy .destroyOpen
  | destroyDisconnect : w.user = .destroyOpen → UserGoes w .destroy .destroyDisconnecting
  | destroySent : w.user = .destroyDisconnecting → UserGoes w .destroy .destroyJoin

/-- What one turn does, by its label. -/
inductive Turn (cfg : Config) (w : World) : Label → World → Prop where
  /-- a handler or a call that leaves the connect requests alone -/
  | moves {l : Label} {w' : World} : ¬ l.Shakes w → Moves cfg w w' → Turn cfg w l w'
  /-- a read handler -/
  | read {l : Label} {w' : World} (t : ℕ) : ¬ l.Shakes w → w.working t = true →
      Moves cfg ({ w with reading := some t }.note (.read t)) w' →
      Turn cfg w l { w' with reading := none }
  /-- the result of a TCP connect -/
  | tcpConnect (i : ℕ) (ok : Bool) (t : ℕ) (req : ConnReq) : w.worker = .looping →
      w.connects[i]? = some (t, req) → deliverable w t ok = true →
      Turn cfg w (.tcpConnect i ok)
        (onTcpConnect cfg t req (uvStatus ok) { w with connects := w.connects.eraseIdx i })
  /-- the handshake request was written -/
  | handshakeReq (i : ℕ) (ok : Bool) (write : Write) (working listed : Bool) :
      w.worker = .looping → w.writes[i]? = some write → write.cb = .handshakeReq →
      Turn cfg w (.writeDone i ok) (handshakeReqCb cfg write.transport (uvStatus ok)
        ({ w with writes := w.writes.eraseIdx i }.note
          (.writeDone write (uvStatus ok) working listed)))
  /-- the ack was written -/
  | handshakeAck (i : ℕ) (ok : Bool) (write : Write) (working listed : Bool) :
      w.worker = .looping → w.writes[i]? = some write → write.cb = .handshakeAck →
      Turn cfg w (.writeDone i ok) (handshakeAckCb cfg write.transport (uvStatus ok)
        ({ w with writes := w.writes.eraseIdx i }.note
          (.writeDone write (uvStatus ok) working listed)))
  /-- the reconnect timer fired -/
  | reconnectTimer : w.worker = .looping → w.reconnectTimer.active = true →
      Turn cfg w .reconnectTimer
        (clientReconnectTimerCb cfg { w with reconnectTimer := uvTimerFired w.reconnectTimer })
  /-- the user connects -/
  | connect (call : ConnectCall) : w.user = .idle → w.worker = .none →
      Turn cfg w (.connect call) (clientConnect call w)
  /-- the loop ended -/
  | loopEnd : loopIdle w = true → w.worker = .looping →
      Turn cfg w .loopEnd { w with worker := .ended, state := .closed }
  /-- the worker tells the listeners -/
  | tailEmit {w' : World} : w.worker = .ended → Moves cfg w w' →
      Turn cfg w .workerTail { w' with worker := .emitted }
  /-- the worker is over, and nobody is left waiting -/
  | tailExit {w' : World} : w.worker = .emitted → Moves cfg w w' → w'.user ≠ .waiting →
      Turn cfg w .workerTail { w' with worker := .exited }
  /-- the user's thread goes on -/
  | user {l : Label} {w' : World} (pc : UserPc) : ¬ l.Shakes w → Moves cfg w w' →
      UserGoes w l pc → Turn cfg w l { w' with user := pc }
  /-- the worker is joined -/
  | join {l : Label} (pc : UserPc) : ¬ l.Shakes w →
      (w.worker = .exited ∨ w.worker = .joined) →
      (w.user = .idle ∧ pc = .idle ∨ w.user = .destroyJoin ∧ pc = .destroyFinally) →
      Turn cfg w l { { w with worker := .joined }.note .joined with user := pc }
  /-- a worker that does not exist is joined -/
  | joinNone {l : Label} (pc : UserPc) : ¬ l.Shakes w → w.worker = .none →
      (w.user = .idle ∧ pc = .idle ∨ w.user = .destroyJoin ∧ pc = .destroyFinally) →
      Turn cfg w l { w.halt .crash with user := pc }
  /-- the client is freed -/
  | free : w.user = .destroyFinally → Turn cfg w .destroy (clientFree cfg w)

section

variable {cfg : Config} {w w' : World}

/-! ## The user's thread -/

theorem turn_clientJoin {l : Label} (hl : ¬ l.Shakes w) (pc : UserPc)
    (hpc : w.user = .idle ∧ pc = .idle ∨ w.user = .destroyJoin ∧ pc = .destroyFinally)
    (h : clientJoin w = some w') : Turn cfg w l { w' with user := pc } := by
  rw [clientJoin] at h
  split at h
  · next hw =>
    obtain rfl := Option.some.inj h
    exact .joinNone pc hl hw hpc
  · next hw =>
    obtain rfl := Option.some.inj h
    exact .join pc hl (.inl hw) hpc
  · next hw =>
    obtain rfl := Option.some.inj h
    exact .join pc hl (.inr hw) hpc
  · exact absurd h (by simp)

/-- Each step of `pc_client_destroy` is a turn. -/
theorem turn_clientDestroy (h : clientDestroy cfg w = some w') : Turn cfg w .destroy w' := by
  have hl : ¬ Label.Shakes w .destroy := id
  rw [clientDestroy] at h
  split at h
  · next hu =>
    obtain rfl := Option.some.inj h
    by_cases hst : w.state = .inited
    · rw [if_pos hst]
      exact .user .destroyFinally hl .refl (.destroyInited hu hst)
    · rw [if_neg hst]
      exact .user .destroyNotInited hl .refl (.destroyNotInited hu hst)
  · next hu =>
    obtain rfl := Option.some.inj h
    by_cases hst : w.state = .closed
    · rw [if_pos hst]
      exact .user .destroyFinally hl .refl (.destroyClosed hu hst)
    · rw [if_neg hst]
      exact .user .destroyOpen hl .refl (.destroyOpen hu hst)
  · next hu =>
    obtain rfl := Option.some.inj h
    exact .user .destroyDisconnecting hl (.single .disconnect) (.destroyDisconnect hu)
  · next hu =>
    obtain rfl := Option.some.inj h
    exact .user .destroyJoin hl (moves_disconnectSend (.inr (.inr hu))) (.destroySent hu)
  · next hu =>
    rcases hj : clientJoin w with _ | w₁
    · rw [hj] at h
      exact absurd h (by simp)
    · rw [hj] at h
      obtain rfl := Option.some.inj h
      exact turn_clientJoin hl .destroyFinally (.inr ⟨hu, rfl⟩) hj
  · next hu =>
    obtain rfl := Option.some.inj h
    exact .free hu
  · exact absurd h (by simp)

/-- Each call of the user is one. -/
theorem turn_userStep {l : Label} (h : userStep cfg w l = some w') : Turn cfg w l w' := by
  cases l with
  | connect call =>
    simp only [userStep, Option.ite_none_right_eq_some, Option.some.injEq] at h
    obtain ⟨⟨hu, hw⟩, rfl⟩ := h
    exact .connect call hu hw
  | condWait =>
    simp only [userStep, Option.ite_none_right_eq_some, Option.some.injEq] at h
    obtain ⟨hu, rfl⟩ := h
    exact .user .waiting id .refl (.wait hu)
  | connectReturn =>
    simp only [userStep, Option.ite_none_right_eq_some, Option.some.injEq] at h
    obtain ⟨hu, rfl⟩ := h
    exact .user .idle id .refl (.wake hu)
  | call act =>
    cases act with
    | disconnect => exact absurd h (by simp [userStep])
    | stop | request | notify | protoCopy =>
      simp only [userStep, Option.ite_none_right_eq_some, Option.some.injEq] at h
      obtain ⟨-, rfl⟩ := h
      exact .moves id (moves_userAct _ w)
  | disconnectSet =>
    simp only [userStep, Option.ite_none_right_eq_some, Option.some.injEq] at h
    obtain ⟨hu, rfl⟩ := h
    exact .user .disconnecting id (.single .disconnect) (.disconnect hu)
  | disconnectSend =>
    simp only [userStep, Option.ite_none_right_eq_some, Option.some.injEq] at h
    obtain ⟨hu, rfl⟩ := h
    exact .user .idle id (moves_disconnectSend (.inr (.inl hu))) (.disconnected hu)
  | join =>
    simp only [userStep, Option.ite_none_right_eq_some] at h
    obtain ⟨hu, hj⟩ := h
    have hsame : { w' with user := .idle } = w' := by
      -- the thread was idle when it called `pc_client_join`
      rw [clientJoin] at hj
      split at hj
      · obtain rfl := Option.some.inj hj
        rw [← hu]
        rfl
      · obtain rfl := Option.some.inj hj
        rw [← hu]
        rfl
      · obtain rfl := Option.some.inj hj
        rw [← hu]
        rfl
      · exact absurd hj (by simp)
    rw [← hsame]
    exact turn_clientJoin id .idle (.inl ⟨hu, rfl⟩) hj
  | destroy => exact turn_clientDestroy h
  | _ => exact absurd h (by simp [userStep])

/-! ## The worker -/

/-- libuv reports `0` or `-1` here. -/
theorem uvStatus_cases (ok : Bool) : uvStatus ok = 0 ∨ uvStatus ok = -1 := by
  cases ok with
  | true => exact .inl rfl
  | false => exact .inr rfl

/-- A write of the handshake or of a heartbeat is taken from the queue and its completion
recorded. -/
theorem moves_writeDone {i : ℕ} {write : Write} (hi : w.writes[i]? = some write)
    (hcb : write.cb = .handshakeReq ∨ write.cb = .handshakeAck ∨ write.cb = .heartbeatReq)
    (status : ℤ) (working listed : Bool) :
    Moves cfg w ({ w with writes := w.writes.eraseIdx i }.note
      (.writeDone write status working listed)) := by
  refine .head (.note (.writeDone write status working listed) (List.mem_of_getElem? hi))
    (.single (.popWrite i write hi ?_))
  rcases hcb with hcb | hcb | hcb <;> rw [hcb] <;> exact trivial

/-- Each callback of the loop is one. -/
theorem turn_loopStep {l : Label} (hhalt : w.halted = none) (hread : w.reading = none)
    (hw : w.worker = .looping) (h : loopStep cfg w l = some w') : Turn cfg w l w' := by
  cases l with
  | tcpConnect i ok =>
    simp only [loopStep] at h
    split at h
    · next t req hi =>
      split at h
      · next hok =>
        obtain rfl := Option.some.inj h
        exact .tcpConnect i ok t req hw hi hok
      · exact absurd h (by simp)
    · exact absurd h (by simp)
  | writeDone i ok =>
    simp only [loopStep] at h
    split at h
    · next write hi =>
      split at h
      · obtain rfl := Option.some.inj h
        rw [writeCb]
        have hnot : write.cb.shakes = false → ¬ (Label.writeDone i ok).Shakes w := by
          intro hshakes
          simp [Label.Shakes, hi, hshakes]
        split
        · next hcb => exact .handshakeReq i ok write _ _ hw hi hcb
        · next hcb => exact .handshakeAck i ok write _ _ hw hi hcb
        · next hcb =>
          refine .moves (hnot (by rw [hcb]; rfl)) ((moves_writeDone hi (.inr (.inr hcb)) (uvStatus ok)
            (w.working write.context) (write.listed w)).trans ?_)
          rw [heartbeatReqCb]
          split
          · split
            · exact moves_clientStop _
            · exact Moves.halt _
          · exact .refl
        · next req hcb =>
          have hctx : write.context = req.transport := by simp only [Write.context, hcb]
          refine .moves (hnot (by rw [hcb]; rfl)) ?_
          rw [hctx]
          exact moves_onRequest hi hcb (uvStatus_cases ok)
        · next req hcb =>
          exact .moves (hnot (by rw [hcb]; rfl)) (moves_onNotify hi hcb (uvStatus_cases ok))
      · exact absurd h (by simp)
    · exact absurd h (by simp)
  | asyncWrite i =>
    simp only [loopStep] at h
    split at h
    · next req hi =>
      obtain rfl := Option.some.inj h
      exact .moves id (moves_asyncWriteCb hi hread)
    · exact absurd h (by simp)
  | tcpRead t ms nread =>
    simp only [loopStep, Option.some.injEq] at h
    subst h
    unfold tpOnTcpRead
    split
    · exact .moves id .refl
    · next hwork =>
      have hwork' : w.working t = true := by simpa using hwork
      cases nread with
      | error =>
        -- `reconnecting` is cleared in front of the stop
        exact .moves id (.head .clearReconnecting (moves_failWith (by decide) _))
      | nothing => exact .moves id .refl
      | bytes data => exact .read t id hwork' (moves_clientOnTcpRead rfl ms data)
  | heartbeatTimer =>
    simp only [loopStep, Option.ite_none_right_eq_some, Option.some.injEq] at h
    obtain ⟨hact, rfl⟩ := h
    exact .moves id (moves_heartbeatCb hact)
  | timeoutTimer =>
    simp only [loopStep, Option.ite_none_right_eq_some, Option.some.injEq] at h
    obtain ⟨hact, rfl⟩ := h
    exact .moves id (moves_timeoutCb hact hhalt)
  | handshakeTimer =>
    simp only [loopStep, Option.ite_none_right_eq_some, Option.some.injEq] at h
    obtain ⟨-, rfl⟩ := h
    exact .moves id (moves_handshakeTimeoutCb w)
  | reconnectTimer =>
    simp only [loopStep, Option.ite_none_right_eq_some, Option.some.injEq] at h
    obtain ⟨hact, rfl⟩ := h
    exact .reconnectTimer hw hact
  | closeAsync =>
    simp only [loopStep, Option.ite_none_right_eq_some, Option.some.injEq] at h
    obtain ⟨⟨hasync, -⟩, rfl⟩ := h
    refine .moves id (.head .takeClose ((moves_clientStop _).trans ?_))
    by_cases hhalt : (clientStop cfg { w with closeSent := false }).halted = none
    · rw [World.andThen_of_none hhalt]
      refine .single (.closeHandled (clientStop_state_ne hhalt) fun hcfg hcl has => ?_)
      exact clientStop_timer hcfg hasync hhalt hcl has
    · rw [World.andThen_of_some (Option.isSome_iff_ne_none.mpr hhalt)]
      exact .refl
  | loopEnd =>
    simp only [loopStep, Option.ite_none_right_eq_some, Option.some.injEq] at h
    obtain ⟨hidle, rfl⟩ := h
    exact .loopEnd hidle hw
  | _ => exact absurd h (by simp [loopStep])

/-- A broadcast leaves nobody waiting. -/
theorem condBroadcast_user (w : World) : (condBroadcast w).user ≠ .waiting := by
  rw [condBroadcast]
  split
  · simp [World.note]
  · next h => exact h

theorem turn_workerTail (h : workerTail cfg w = some w') : Turn cfg w .workerTail w' := by
  rw [workerTail] at h
  split at h
  · next hw =>
    obtain rfl := Option.some.inj h
    exact .tailEmit hw (moves_emitEvent _ w)
  · next hw =>
    obtain rfl := Option.some.inj h
    exact .tailExit hw (moves_condBroadcast w) (condBroadcast_user w)
  · exact absurd h (by simp)

/-- Nothing runs after a crash. -/
theorem step_halted {supply : List Bool} {l : Label} (h : step cfg supply l w = some w') :
    w.halted = none := by
  by_contra hne
  rw [step, if_pos (.inl (Option.isSome_iff_ne_none.mpr hne))] at h
  exact absurd h (by simp)

/-- **Inversion.** A step is one of the turns, from the world with the outcomes that the
label brings along. -/
theorem step_turn {supply : List Bool} {l : Label} (hread : w.reading = none)
    (h : step cfg supply l w = some w') : Turn cfg { w with supply := supply } l w' := by
  have hhalt := step_halted h
  rw [step] at h
  split at h
  · exact absurd h (by simp)
  · dsimp only at h
    split at h
    · next hu =>
      obtain rfl := Option.some.inj h
      exact turn_userStep hu
    · split at h
      · exact turn_workerTail h
      · split at h
        · next hw => exact turn_loopStep hhalt hread hw h
        · exact absurd h (by simp)

/-! ## Turns as moves -/

/-- A turn without the threads: moves, a read handler, or the end of the loop. -/
inductive Shape (cfg : Config) (w : World) : World → Prop where
  /-- moves, whatever they do to the threads -/
  | links {w' : World} (worker : Worker) (user : UserPc) : Links cfg w w' →
      Shape cfg w { w' with worker := worker, user := user }
  /-- a read handler -/
  | read {w' : World} (t : ℕ) : w.working t = true →
      Moves cfg ({ w with reading := some t }.note (.read t)) w' →
      Shape cfg w { w' with reading := none }
  /-- the worker is joined -/
  | join (user : UserPc) : Shape cfg w { { w with worker := .joined }.note .joined with user := user }
  /-- the end of the loop -/
  | loopEnd : loopIdle w = true → Shape cfg w { w with worker := .ended, state := .closed }

theorem Shape.of_links (h : Links cfg w w') : Shape cfg w w' := .links w'.worker w'.user h

/-- The preparation of a connect remembers the host and uses up outcomes. -/
theorem connectPrepare_eq (call : ConnectCall) (w : World) :
    ∃ host supply, (connectPrepare call w).1 = { w with host := host, supply := supply } := by
  unfold connectPrepare
  split
  · exact ⟨w.host, w.supply, rfl⟩
  · obtain ⟨supply, heq⟩ := connectReqNew_supply w
    exact ⟨w.host, supply, heq⟩
  · obtain ⟨supply, heq⟩ := connectReqNew_supply w
    exact ⟨w.host, supply, heq⟩
  · split
    · exact ⟨w.host, w.called.supply, rfl⟩
    · obtain ⟨supply, heq⟩ := connectReqNew_supply { w.called with host := true }
      exact ⟨true, supply, heq⟩

/-- **A connect function** fails before `pc_connect`, is refused by it, or starts the worker. -/
inductive ClientConnect (call : ConnectCall) (w : World) : World → Prop where
  /-- there is no connect request -/
  | failed (host : Bool) (supply : List Bool) :
      ClientConnect call w { w with host := host, supply := supply }
  /-- `pc_connect` fails -/
  | refused (host : Bool) (supply : List Bool) (w' : World) :
      pcConnect call.cb { w with host := host, supply := supply } = (w', false) →
      connectPrepare call w = ({ w with host := host, supply := supply }, true) →
      ClientConnect call w w'
  /-- the worker is created -/
  | started (host : Bool) (supply : List Bool) (w' : World) :
      pcConnect call.cb { w with host := host, supply := supply } = (w', true) →
      connectPrepare call w = ({ w with host := host, supply := supply }, true) →
      ClientConnect call w
        { w' with worker := .looping, user := if call = .connect then .connectWait else .idle }

/-- A connect returns an error, or leaves a worker behind. -/
theorem clientConnect_cases (call : ConnectCall) (w : World) :
    ClientConnect call w (clientConnect call w) := by
  obtain ⟨host, supply, hprep⟩ := connectPrepare_eq call w
  rw [clientConnect]
  rcases hr : connectPrepare call w with ⟨w₁, _ | _⟩ <;> rw [hr] at hprep
  · obtain rfl : w₁ = _ := hprep
    exact .failed host supply
  · obtain rfl : w₁ = _ := hprep
    dsimp only
    split
    · next h => exact .refused host supply _ h hr
    · next h => exact .started host supply _ h hr

theorem shape_clientConnect (call : ConnectCall) : Shape cfg w (clientConnect call w) := by
  have hcases := clientConnect_cases call w
  have hconn : ∀ host supply,
      Links cfg w (pcConnect call.cb { w with host := host, supply := supply }).1 := by
    intro host supply
    refine Links.trans ?_ (links_pcConnect call.cb _)
    exact (Moves.other w.pkgParser w.heartbeat w.timeout w.handshakeOpts host supply).links
  generalize clientConnect call w = w' at hcases ⊢
  cases hcases with
  | failed host supply =>
    exact .of_links (Moves.other w.pkgParser w.heartbeat w.timeout w.handshakeOpts host supply).links
  | refused host supply w' h =>
    have hlinks := hconn host supply
    rw [h] at hlinks
    exact .of_links hlinks
  | started host supply w' h =>
    have hlinks := hconn host supply
    rw [h] at hlinks
    exact .links _ _ hlinks

/-- **Freeing the client** is a sequence of moves; only then the user's thread is done. -/
theorem clientFree_moves (cfg : Config) (w : World) :
    ∃ w₁, Moves cfg w w₁ ∧ (clientFree cfg w = w₁ ∨ clientFree cfg w = { w₁ with user := .freed }) := by
  have hclear : Moves cfg w (requestsClear (releaseRequest cfg) w.requests.length w) :=
    moves_requestsClear _ w
  rw [clientFree]
  generalize requestsClear (releaseRequest cfg) w.requests.length w = w₁ at hclear ⊢
  rw [World.andThen]
  split
  · exact ⟨w₁, hclear, .inl rfl⟩
  · have hfree : Moves cfg w { w₁ with
        pkgParser := pkgParserClose w₁.pkgParser, handshakeOpts := none
        tables := ⟨none, none, none, none⟩, protoVer := none, host := false } :=
      hclear.trans (Moves.inert rfl (.free (pkgParserClose w₁.pkgParser)))
    exact ⟨_, hfree, .inr rfl⟩

/-- Freeing the client touches no thread but the one that frees. -/
theorem shape_clientFree : Shape cfg w (clientFree cfg w) := by
  obtain ⟨w₁, hm, heq | heq⟩ := clientFree_moves cfg w
  · rw [heq]
    exact .of_links hm.links
  · rw [heq]
    exact .links w₁.worker .freed hm.links

/-! The handlers that concern connect requests. -/

theorem links_turn_handshakeReq {i : ℕ} (ok : Bool) {write : Write} (working listed : Bool)
    (hi : w.writes[i]? = some write) (hcb : write.cb = .handshakeReq) :
    Links cfg w (handshakeReqCb cfg write.transport (uvStatus ok)
      ({ w with writes := w.writes.eraseIdx i }.note
        (.writeDone write (uvStatus ok) working listed))) :=
  (moves_writeDone hi (.inl hcb) _ _ _).links.trans (links_handshakeReqCb ..)

theorem links_turn_handshakeAck {i : ℕ} (ok : Bool) {write : Write} (working listed : Bool)
    (hi : w.writes[i]? = some write) (hcb : write.cb = .handshakeAck) :
    Links cfg w (handshakeAckCb cfg write.transport (uvStatus ok)
      ({ w with writes := w.writes.eraseIdx i }.note
        (.writeDone write (uvStatus ok) working listed))) :=
  (moves_writeDone hi (.inr (.inl hcb)) _ _ _).links.trans
    (links_handshakeAckCb hcb (uvStatus_cases ok) (List.mem_cons_self ..))

theorem links_turn_reconnectTimer (hact : w.reconnectTimer.active = true) :
    Links cfg w
      (clientReconnectTimerCb cfg { w with reconnectTimer := uvTimerFired w.reconnectTimer }) :=
  .head (.move (.fireTimer hact)) rfl (links_clientReconnectTimerCb _)

/-- Every turn has this shape. -/
theorem Turn.shape {l : Label} (h : Turn cfg w l w') : Shape cfg w w' := by
  cases h with
  | moves _ hm => exact .of_links hm.links
  | read t _ hwork hm => exact .read t hwork hm
  | tcpConnect i ok t req _ hi hok => exact .of_links (links_onTcpConnect hi hok)
  | handshakeReq i ok write working listed _ hi hcb =>
    exact .of_links (links_turn_handshakeReq ok working listed hi hcb)
  | handshakeAck i ok write working listed _ hi hcb =>
    exact .of_links (links_turn_handshakeAck ok working listed hi hcb)
  | reconnectTimer _ hact => exact .of_links (links_turn_reconnectTimer hact)
  | connect call _ _ => exact shape_clientConnect call
  | loopEnd hidle _ => exact .loopEnd hidle
  | tailEmit _ hm => exact .links _ _ hm.links
  | tailExit _ hm _ => exact .links _ _ hm.links
  | user pc _ hm _ => exact .links _ pc hm.links
  | join pc _ _ _ => exact .join pc
  | joinNone pc _ _ _ => exact .links _ pc (Moves.halt .crash).links
  | free _ => exact shape_clientFree

/-- No move ends or starts a thread; a waiting user may be woken. -/
theorem Link.threads (h : Link cfg w w') :
    w'.worker = w.worker ∧ (w'.user = w.user ∨ w'.user = .woken) := by
  cases h with
  | move hm => exact ⟨hm.framed.worker, hm.framed.user.imp_right And.right⟩
  | _ => exact ⟨rfl, .inl rfl⟩

theorem Links.threads (h : Links cfg w w') :
    w'.worker = w.worker ∧ (w'.user = w.user ∨ w'.user = .woken) := by
  obtain ⟨hseq, -⟩ := h
  induction hseq with
  | refl => exact ⟨rfl, .inl rfl⟩
  | tail _ hl ih =>
    obtain ⟨hworker, huser⟩ := hl.threads
    refine ⟨hworker.trans ih.1, ?_⟩
    rcases huser with huser | huser
    · rw [huser]
      exact ih.2
    · exact .inr huser

/-- An accepted connect leaves the client `CONNECTING`. -/
theorem pcConnect_state {cb : ConnectCb} (h : pcConnect cb w = (w', true)) :
    w'.state = .connecting := by
  have hcases := pcConnect_cases cb w
  rw [h] at hcases
  cases hcases with
  | launched => rfl

/-- **A worker is started by a connect** that was accepted. -/
theorem Turn.started {l : Label} (h : Turn cfg w l w') (hnone : w'.worker ≠ .none) :
    w.worker ≠ .none ∨ w'.state = .connecting := by
  refine or_iff_not_imp_left.2 fun hworker => ?_
  have hw : w.worker = .none := not_not.1 hworker
  cases h with
  | moves _ hm => exact absurd (hm.framed.worker.trans hw) hnone
  | read t _ _ hm => exact absurd (hm.framed.worker.trans hw) hnone
  | user pc _ hm _ => exact absurd (hm.framed.worker.trans hw) hnone
  | joinNone => exact absurd hw hnone
  | connect call _ _ =>
    have hcases := clientConnect_cases call w
    generalize clientConnect call w = w' at hcases hnone ⊢
    cases hcases with
    | failed host supply => exact absurd hw hnone
    | refused host supply w' h' =>
      have hconn : Links cfg _ _ := links_pcConnect call.cb { w with host := host, supply := supply }
      rw [h'] at hconn
      exact absurd (hconn.threads.1.trans hw) hnone
    | started host supply w₂ h' =>
      have hst : w₂.state = .connecting := pcConnect_state h'
      exact hst
  | free _ =>
    obtain ⟨w₁, hm, heq | heq⟩ := clientFree_moves cfg w
    · rw [heq] at hnone
      exact absurd (hm.framed.worker.trans hw) hnone
    · rw [heq] at hnone
      exact absurd (hm.framed.worker.trans hw) hnone
  | join pc _ hpast _ =>
    rw [hw] at hpast
    exact absurd hpast (by decide)
  | tcpConnect _ _ _ _ hpast | handshakeReq _ _ _ _ _ hpast | handshakeAck _ _ _ _ _ hpast
  | reconnectTimer hpast | loopEnd _ hpast | tailEmit hpast | tailExit hpast =>
    rw [hw] at hpast
    exact absurd hpast (by decide)

theorem Link.reading (h : Link cfg w w') : w'.reading = w.reading := by
  cases h with
  | move hm => exact hm.framed.reading
  | _ => rfl

theorem Links.reading (h : Links cfg w w') : w'.reading = w.reading := by
  obtain ⟨hseq, -⟩ := h
  induction hseq with
  | refl => rfl
  | tail _ hl ih => exact hl.reading.trans ih

/-- Between turns no read handler is running. -/
theorem Shape.reading (h : Shape cfg w w') (hread : w.reading = none) : w'.reading = none := by
  cases h with
  | links worker user hl => exact hl.reading.trans hread
  | read => rfl
  | join | loopEnd => exact hread

/-- Nor is a reset. -/
theorem Shape.settled (h : Shape cfg w w') : w.Settled w' := by
  cases h with
  | links worker user hl => exact hl.settled
  | read t _ hm => exact hm.settled
  | join | loopEnd => exact fun _ hr => hr

end

/-! ## The handlers of a connect request -/

/-- **What callbacks leave alone.** The property is kept by every move, and does not depend on
the connect request and on its callbacks. -/
structure Enduring (cfg : Config) (P : World → Prop) : Prop where
  /-- one move -/
  move : ∀ begins w w', P w → Move cfg begins w w' → P w'
  /-- the connect request is taken -/
  taken : ∀ w, P w → P { w with connReq := none }
  /-- a connect callback runs -/
  calledBack : ∀ w req status, P w → P (w.note (.connectCb req status))

namespace Enduring

variable {cfg : Config} {P : World → Prop} {w w' : World}

theorem moves (hP : Enduring cfg P) (h : Moves cfg w w') (hw : P w) : P w' := by
  refine preserved_of_reflTransGen ?_ h.seq hw
  rintro w₁ w₂ hw₁ ⟨begins, hm⟩
  exact hP.move begins w₁ w₂ hw₁ hm

theorem connectCb (hP : Enduring cfg P) (hw : P w) (req : ConnReq) (status : ℤ) :
    P (connectCb cfg req status w) :=
  hP.moves (moves_connectCb req status w) (hP.calledBack w req status hw)

theorem connectError (hP : Enduring cfg P) (hw : P w) {f : Failure} (hf : f ≠ .heartbeatTimeout)
    (req : ConnReq) : P (connectError cfg f req w) := by
  have hfail : P (failWith cfg f { w with connReq := none }) :=
    hP.moves (moves_failWith hf _) (hP.taken w hw)
  rw [Libpomelo.connectError, World.andThen]
  split
  · exact hfail
  · exact hP.connectCb hfail req (-1)

theorem finishConnect (hP : Enduring cfg P) (hw : P w) (status : ℤ) :
    P (finishConnect cfg status w) := by
  rw [Libpomelo.finishConnect]
  split
  · exact hw
  · exact hP.connectCb (hP.taken w hw) _ status

theorem handshakeReqCb (hP : Enduring cfg P) (hw : P w) (t : ℕ) (status : ℤ) :
    P (handshakeReqCb cfg t status w) := by
  rw [Libpomelo.handshakeReqCb]
  split
  · exact hw
  · split
    · exact hP.finishConnect (hP.moves (moves_failWith (by decide) w) hw) status
    · exact hw

/-- The ack, if it counts as nothing that it makes the client `WORKING`. -/
theorem handshakeAckCb (hP : Enduring cfg P) (hw : P w) {t : ℕ} {status : ℤ}
    (hacked : w.working t = true → status ≠ -1 →
      P ({ w with state := .working }.note (.acked w.state))) :
    P (handshakeAckCb cfg t status w) := by
  rw [Libpomelo.handshakeAckCb]
  split
  · exact hw
  · next hwork =>
    dsimp only
    split
    · exact hP.finishConnect (hP.moves (moves_failWith (by decide) w) hw) status
    · next hstatus => exact hP.finishConnect (hacked (by simpa using hwork) hstatus) status

/-- The handshake request after a TCP connect, and the error path behind it. -/
theorem handshakeReq (hP : Enduring cfg P) (hw : P w) (req : ConnReq)
    (hgreet : ∀ v t data, P v → v.transport = some t → WriteCb.handshakeReq.Packs (some data) →
      P (queueWrite .handshakeReq t (some data) v)) :
    P (handshakeReq cfg w).1 ∧
      P ((Libpomelo.handshakeReq cfg w).1.andThen
        (Libpomelo.connectError cfg .handshakeReq req)) := by
  have hload := hP.moves (moves_loadProtoVer w) hw
  have hreq : P (Libpomelo.handshakeReq cfg w).1 := by
    have hcases := handshakeReq_cases cfg w
    generalize loadProtoVer w = w₁ at hload hcases
    generalize Libpomelo.handshakeReq cfg w = r at hcases ⊢
    cases hcases with
    | failed supply => exact hP.moves (Moves.supply supply) hload
    | crashed supply => exact hP.moves ((Moves.supply supply).trans (Moves.halt _)) hload
    | stranded t data supply ht hpacks =>
      exact hP.moves (Moves.halt _)
        (hgreet _ t data (hP.moves (Moves.supply supply) hload) ht hpacks)
    | queued t data supply ht hst htimer hpacks =>
      refine hP.moves ?_ (hgreet _ t data (hP.moves (Moves.supply supply) hload) ht hpacks)
      refine .head (.inert { queueWrite .handshakeReq t (some data) { w₁ with supply := supply } with
        handshakeTimer := some ⟨true, 0⟩ } rfl (.armHandshake htimer hst)) ?_
      exact .single (.note (.announced w₁.protoVer) rfl)
  refine ⟨hreq, ?_⟩
  rw [World.andThen]
  split
  · exact hreq
  · exact hP.connectError hreq (by decide) req

end Enduring

section Rules

variable {cfg : Config} {ok : World → List Bool × Label → World → Prop}

theorem reach_reading {w : World} (h : (clientLts cfg).Reach ok w) : w.reading = none := by
  refine h.invariant (P := fun w => w.reading = none) ?_ ?_
  · rintro _ ⟨reqId, files, -, rfl⟩
    rfl
  · intro w l w' _ hread hstep _
    exact (step_turn hread hstep).shape.reading hread

theorem reach_settled {w : World} (h : (clientLts cfg).Reach ok w) :
    w.halted = none → w.resetting = false := by
  refine h.invariant (P := fun w => w.halted = none → w.resetting = false) ?_ ?_
  · rintro _ ⟨reqId, files, -, rfl⟩ _
    rfl
  · intro w l w' hr hsettled hstep _ hhalt
    refine (step_turn (reach_reading hr) hstep).shape.settled hhalt (hsettled ?_)
    exact step_halted hstep

/-- **Stable under moves.** The property does not depend on the threads and the supply, and is
kept by every move, by the two ends of a read handler and by the end of the loop. -/
structure Stable (cfg : Config) (P : World → Prop) : Prop where
  /-- one move -/
  link : ∀ w w', P w → Link cfg w w' → P w'
  /-- where the threads stand, and the outcomes of calls to come -/
  threads : ∀ w supply worker user, P w →
    P { w with supply := supply, worker := worker, user := user }
  /-- a read handler begins -/
  start : ∀ w t, P w → w.reading = none → w.working t = true →
    P ({ w with reading := some t }.note (.read t))
  /-- it ends -/
  finish : ∀ w, P w → P { w with reading := none }
  /-- the loop ends -/
  loopEnd : ∀ w, P w → loopIdle w = true → P { w with worker := .ended, state := .closed }

/-- **An invariant of moves** holds of a fresh client, too. -/
structure Kept (cfg : Config) (P : World → Prop) : Prop extends Stable cfg P where
  /-- a fresh client -/
  init : ∀ reqId files, P (.init reqId files)

/-- A turn keeps what is stable. -/
theorem Stable.step {P : World → Prop} (hP : Stable cfg P) {w w' : World} {supply : List Bool}
    {l : Label} (hread : w.reading = none) (h : step cfg supply l w = some w') (hw : P w) : P w' := by
  have hw₀ : P { w with supply := supply } := hP.threads w supply w.worker w.user hw
  cases (step_turn hread h).shape with
  | links worker user hl =>
    exact hP.threads _ _ worker user (preserved_of_reflTransGen hP.link hl.seq hw₀)
  | read t hwork hm =>
    refine hP.finish _ (preserved_of_reflTransGen hP.link hm.links.seq ?_)
    exact hP.start _ t hw₀ hread hwork
  | join user =>
    have hjoined : P { w with supply := supply, worker := .joined } :=
      hP.threads w supply .joined w.user hw
    have hnoted := hP.link _ _ hjoined (.move (.note .joined rfl))
    exact hP.threads _ supply .joined user hnoted
  | loopEnd hidle => exact hP.loopEnd _ hw₀ hidle

/-- An invariant of moves holds in every reachable state. -/
theorem Kept.reach {P : World → Prop} (hP : Kept cfg P) {w : World}
    (h : (clientLts cfg).Reach ok w) : P w := by
  apply h.invariant
  · rintro _ ⟨reqId, files, -, rfl⟩
    exact hP.init reqId files
  · exact fun w l w' hr hw hstep _ => hP.step (reach_reading hr) hstep hw

/-- What is stable and holds of a client that is `CONNECTING` holds once there is a worker. -/
theorem Stable.reach_started {P : World → Prop} (hP : Stable cfg P)
    (hconnecting : ∀ w : World, w.state = .connecting → P w) {w : World}
    (h : (clientLts cfg).Reach ok w) : w.worker ≠ .none → P w := by
  refine h.invariant (P := fun w => w.worker ≠ .none → P w) ?_ ?_
  · rintro _ ⟨reqId, files, -, rfl⟩ hnone
    exact absurd rfl hnone
  · intro w l w' hr hw hstep _ hnone
    rcases (step_turn (reach_reading hr) hstep).started hnone with hbefore | hst
    · exact hP.step (reach_reading hr) hstep (hw hbefore)
    · exact hconnecting w' hst

/-- An invariant may rely on another one. -/
theorem Kept.and {P Q : World → Prop} (hP : Kept cfg P)
    (init : ∀ reqId files, Q (.init reqId files))
    (link : ∀ w w', P w → Q w → Link cfg w w' → Q w')
    (threads : ∀ w supply worker user, Q w →
      Q { w with supply := supply, worker := worker, user := user })
    (start : ∀ w t, P w → Q w → w.reading = none → w.working t = true →
      Q ({ w with reading := some t }.note (.read t)))
    (finish : ∀ w, Q w → Q { w with reading := none })
    (loopEnd : ∀ w, P w → Q w → loopIdle w = true →
      Q { w with worker := .ended, state := .closed }) :
    Kept cfg fun w => P w ∧ Q w where
  init reqId files := ⟨hP.init reqId files, init reqId files⟩
  link w w' hw hlink := ⟨hP.link w w' hw.1 hlink, link w w' hw.1 hw.2 hlink⟩
  threads w supply worker user hw :=
    ⟨hP.threads w supply worker user hw.1, threads w supply worker user hw.2⟩
  start w t hw hread hwork := ⟨hP.start w t hw.1 hread hwork, start w t hw.1 hw.2 hread hwork⟩
  finish w hw := ⟨hP.finish w hw.1, finish w hw.2⟩
  loopEnd w hw hidle := ⟨hP.loopEnd w hw.1 hidle, loopEnd w hw.1 hw.2 hidle⟩

end Rules

end Libpomelo
