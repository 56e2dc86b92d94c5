import Libpomelo.ParserLife

/-!
# What a reset leaves of a connection

`pc__client_reconnect_reset` undoes by one list what the handlers of four files have set up for
a connection. After it the client should be as fresh as `pc__client_init` leaves it
(`World.LikeNew`).

The list misses two items. The timeout timer is stopped twice and the handshake timer not at
all, so it keeps running into the next connection; and the connect request stays, although
nobody may be left who answers it.
-/

namespace Libpomelo

/-- **Like new.** Every field that belongs to one connection is as `pc__client_init` leaves it. -/
structure World.LikeNew (w : World) : Prop where
  /-- `transport` -/
  transport : w.transport = none
  /-- `state` -/
  state : w.state = .inited
  /-- `heartbeat` -/
  heartbeat : w.heartbeat = 0
  /-- `timeout` -/
  timeout : w.timeout = 0
  /-- `heartbeat_timer` -/
  heartbeatTimer : w.heartbeatTimer.any Timer.active = false
  /-- `timeout_timer` -/
  timeoutTimer : w.timeoutTimer.any Timer.active = false
  /-- `handshake_timer` -/
  handshakeTimer : w.handshakeTimer.any Timer.active = false
  /-- `requests` -/
  requests : w.requests = []
  /-- `pkg_parser` -/
  pkgParser : w.pkgParser.AtRest
  /-- `handshake_opts` -/
  handshakeOpts : w.handshakeOpts = none
  /-- `route_to_code`, `code_to_route`, `server_protos`, `client_protos` -/
  tables : w.tables = ⟨none, none, none, none⟩
  /-- `conn_req` -/
  connReq : w.connReq = none

/-- `pc__client_reconnect_reset` as `pc__client_reconnect` calls it. -/
def resetCalled (cfg : Config) (w : World) : World :=
  clientReconnectReset cfg { w with reconnecting := true }

/-- The client as the callbacks of its requests leave it to the rest of the reset. -/
def releasedInReset (cfg : Config) (w : World) : World :=
  requestsClear (releaseInReset cfg) w.requests.length
    (stopTimers (dropTransport { w with reconnecting := true, resetting := true }))

/-- One of these callbacks has closed the client, and its timers with it. -/
def ClosedInReset (cfg : Config) (w : World) : Prop :=
  ∃ newer, (releasedInReset cfg w).trace = newer ++ w.trace ∧ .closed ∈ newer

/-- An interval that the reset sets to zero, or that is zero: it is left alone with its timer at
`NULL`. -/
def Cleared (timer : Option Timer) (interval : ℤ) : Prop := timer.isSome = true ∨ interval = 0

/-- **What is reset.** No connect request is pending, the handshake timer does not run or is
closed by a callback, and the intervals go with their timers. -/
structure ResetComplete (cfg : Config) (w : World) : Prop where
  /-- `conn_req` -/
  connReq : w.connReq = none
  /-- `handshake_timer` -/
  handshakeTimer : w.handshakeTimer.any Timer.active = false ∨ ClosedInReset cfg w
  /-- `heartbeat` -/
  heartbeat : Cleared w.heartbeatTimer w.heartbeat
  /-- `timeout` -/
  timeout : Cleared w.timeoutTimer w.timeout

/-- The reset of a client under way, up to the callbacks of its requests. -/
structure World.Releasing (w u : World) : Prop where
  /-- no connection -/
  transport : u.transport = none
  /-- the interval is cleared with its timer -/
  heartbeat : u.heartbeat = if w.heartbeatTimer.isSome then 0 else w.heartbeat
  /-- the interval is cleared with its timer -/
  timeout : u.timeout = if w.timeoutTimer.isSome then 0 else w.timeout
  /-- no timer comes back -/
  heartbeatKept : u.heartbeatTimer.isSome = true → w.heartbeatTimer.isSome = true
  /-- no timer comes back -/
  timeoutKept : u.timeoutTimer.isSome = true → w.timeoutTimer.isSome = true
  /-- it is stopped -/
  heartbeatTimer : u.heartbeatTimer.any Timer.active = false
  /-- it is stopped -/
  timeoutTimer : u.timeoutTimer.any Timer.active = false
  /-- nothing happens to it, unless the client is closed -/
  handshakeTimer : ∃ newer, u.trace = newer ++ w.trace ∧
    (.closed ∉ newer ∧ u.handshakeTimer = w.handshakeTimer ∨
      .closed ∈ newer ∧ u.handshakeTimer = none)
  /-- nothing happens to it -/
  connReq : u.connReq = w.connReq
  /-- nothing happens to it -/
  host : u.host = w.host

section Reset

variable {cfg : Config} {w u u' : World}

/-- Nothing but events other than `.closed`. -/
theorem World.Releasing.note (h : w.Releasing u) {e : Event} (he : e ≠ .closed) :
    w.Releasing (u.note e) := by
  obtain ⟨newer, htrace, hkept⟩ := h.handshakeTimer
  refine { h with handshakeTimer := ⟨e :: newer, ?_, ?_⟩ }
  · exact congrArg (e :: ·) htrace
  · obtain ⟨hopen, hsame⟩ | ⟨hclosed, hnone⟩ := hkept
    · exact .inl ⟨by simpa [he.symm] using hopen, hsame⟩
    · exact .inr ⟨List.mem_cons_of_mem _ hclosed, hnone⟩

/-- The client is closed. -/
theorem World.Releasing.clientClose (h : w.Releasing u) : w.Releasing (clientClose cfg u) := by
  obtain ⟨newer, htrace, -⟩ := h.handshakeTimer
  refine ⟨rfl, ?_, ?_, fun hsome => absurd hsome (by simp [Libpomelo.clientClose, World.note]),
    fun hsome => absurd hsome (by simp [Libpomelo.clientClose, World.note]), rfl, rfl,
    ⟨.closed :: newer, ?_, .inr ⟨List.mem_cons_self, rfl⟩⟩, h.connReq, h.host⟩
  · change (if u.heartbeatTimer.isSome then 0 else u.heartbeat) = _
    split
    · next hsome => rw [if_pos (h.heartbeatKept hsome)]
    · exact h.heartbeat
  · change (if u.timeoutTimer.isSome then 0 else u.timeout) = _
    split
    · next hsome => rw [if_pos (h.timeoutKept hsome)]
    · exact h.timeout
  · exact congrArg (.closed :: ·) htrace

/-- A call from a callback that the reset runs. -/
theorem World.Releasing.userActWith (h : w.Releasing u) (act : UserAct) :
    w.Releasing (userActWith cfg id u act) := by
  cases act with
  | stop =>
    have hstop : w.Releasing (u.note (.stop u.state u.reconnecting)) := h.note (by simp)
    rw [Libpomelo.userActWith, stopWith]
    split
    · split
      · exact hstop
      · exact hstop
    · split
      · exact { hstop with }
      · split
        · exact hstop
        · exact hstop.clientClose
  | disconnect =>
    have hset : w.Releasing (disconnectSet u) := by
      have hstate : w.Releasing { u with state := .disconnecting } := { h with }
      exact hstate.note (by simp)
    rw [Libpomelo.userActWith, disconnectSend]
    split
    · have hsent : w.Releasing { disconnectSet u with closeSent := true } := { hset with }
      exact hsent.note (by simp)
    · have hnoted : w.Releasing ((disconnectSet u).note (.closeSend false)) := hset.note (by simp)
      exact { hnoted with }
  | request route msg =>
    rw [Libpomelo.userActWith, pcRequest]
    split
    · exact h
    · have hid : w.Releasing { u with reqId := (u.reqId + 1) % 2 ^ 32 } := { h with }
      dsimp only
      rw [asyncWrite_none hid.transport]
      exact hid
  | notify route msg =>
    rw [Libpomelo.userActWith, pcNotify]
    split
    · exact h
    · rw [asyncWrite_none h.transport]
      exact h
  | protoCopy version client server =>
    have hcopied : w.Releasing { u with
        protoVer := version
        tables := { u.tables with clientProtos := client, serverProtos := server } } := { h with }
    exact hcopied.note (by simp)

/-- The callbacks of all requests. -/
theorem releasing_releasedInReset (w : World) : w.Releasing (releasedInReset cfg w) := by
  refine requestsClear_preserves (P := w.Releasing) ?_ _ _ ?_
  · intro u key req before after h _
    refine callbackWith_preserves (P := w.Releasing) (fun u act h => h.userActWith act) ?_
    have hunlisted : w.Releasing { u with requests := before ++ after } := { h with }
    exact hunlisted.note (by simp)
  · refine ⟨rfl, rfl, rfl, ?_, ?_, any_map_uvTimerStop _, any_map_uvTimerStop _,
      ⟨[], rfl, .inl ⟨List.not_mem_nil, rfl⟩⟩, rfl, rfl⟩
    · exact fun hsome => by simpa [stopTimers, dropTransport] using hsome
    · exact fun hsome => by simpa [stopTimers, dropTransport] using hsome

theorem releasedInReset_requests (hrun : (releasedInReset cfg w).halted = none) :
    (releasedInReset cfg w).requests = [] := by
  have hclear : (releasedInReset cfg w).halted.isSome = true ∨
      (releasedInReset cfg w).requests = [] :=
    requestsClear_requests (fun req u => releaseInReset_requests req u) _ _ (Nat.le_refl _)
  exact hclear.resolve_left (by simp [hrun])

theorem releasedInReset_sound (h : w.pkgParser.Sound) :
    (releasedInReset cfg w).pkgParser.Sound := by
  have hacts : Acts w (releasedInReset cfg w) := by
    refine requestsClear_preserves (P := Acts w) ?_ _ _ (.quiet rfl rfl)
    intro u key req before after hacts hsplit
    exact (hacts.trans (.released hsplit)).trans (acts_releaseInReset req _)
  exact hacts.sound h

/-- Whether a callback has closed the client. -/
theorem closedInReset_iff {newer : List Event}
    (h : (releasedInReset cfg w).trace = newer ++ w.trace) :
    ClosedInReset cfg w ↔ .closed ∈ newer := by
  constructor
  · rintro ⟨newer', htrace, hclosed⟩
    rwa [List.append_cancel_right (htrace.symm.trans h)] at hclosed
  · exact fun hclosed => ⟨newer, h, hclosed⟩

/-- A cleared interval is zero. -/
theorem cleared_iff {timer : Option Timer} {interval : ℤ} :
    (if timer.isSome then 0 else interval) = 0 ↔ Cleared timer interval := by
  rw [Cleared]
  cases timer <;> simp

/-- **When a reset is complete.** In every reachable state, and whatever the callbacks of its
requests call, the reset that returns leaves a client like new, and its host as it was, exactly
when no connect request is pending, the handshake timer does not run or is closed by one of the
callbacks, and no interval stands without its timer. -/
theorem likeNew_resetCalled_iff (h : Reachable cfg w) (hlive : w.user ≠ .freed)
    (hrun : (resetCalled cfg w).halted = none) :
    (resetCalled cfg w).LikeNew ∧ (resetCalled cfg w).host = w.host ↔ ResetComplete cfg w := by
  have hcalled : resetCalled cfg w = (releasedInReset cfg w).andThen fun w =>
      { resetFields w with state := .inited, resetting := false } := rfl
  have hreleased : (releasedInReset cfg w).halted = none :=
    World.running_of_andThen (hcalled ▸ hrun)
  have hreleasing : w.Releasing (releasedInReset cfg w) := releasing_releasedInReset w
  have hrequests := releasedInReset_requests hreleased
  have hparser : (pkgParserReset (releasedInReset cfg w).pkgParser).AtRest :=
    (releasedInReset_sound (reach_sound h hlive)).reset
  rw [hcalled, World.andThen_of_none hreleased]
  generalize hu : releasedInReset cfg w = u at hreleasing hrequests hparser ⊢
  obtain ⟨newer, htrace, hkept⟩ := hreleasing.handshakeTimer
  rw [← hu] at htrace
  have hclosed := closedInReset_iff htrace
  constructor
  · rintro ⟨hnew, -⟩
    refine ⟨hreleasing.connReq.symm.trans hnew.connReq, ?_,
      cleared_iff.mp (hreleasing.heartbeat.symm.trans hnew.heartbeat),
      cleared_iff.mp (hreleasing.timeout.symm.trans hnew.timeout)⟩
    obtain ⟨-, hsame⟩ | ⟨hgone, -⟩ := hkept
    · have hstopped : u.handshakeTimer.any Timer.active = false := hnew.handshakeTimer
      rw [hsame] at hstopped
      exact .inl hstopped
    · exact .inr (hclosed.mpr hgone)
  · intro hcomplete
    have hhandshake : u.handshakeTimer.any Timer.active = false := by
      obtain ⟨hopen, hsame⟩ | ⟨-, hnone⟩ := hkept
      · rw [hsame]
        exact hcomplete.handshakeTimer.resolve_right fun hgone => hopen (hclosed.mp hgone)
      · rw [hnone]
        rfl
    exact ⟨⟨hreleasing.transport, rfl,
      hreleasing.heartbeat.trans (cleared_iff.mpr hcomplete.heartbeat),
      hreleasing.timeout.trans (cleared_iff.mpr hcomplete.timeout), hreleasing.heartbeatTimer,
      hreleasing.timeoutTimer, hhandshake, hrequests, hparser, rfl, rfl,
      hreleasing.connReq.trans hcomplete.connReq⟩, hreleasing.host⟩

end Reset

/-- A `WORKING` client that reconnects. -/
theorem likeNew_resetCalled_plainStart :
    ∃ w, runSteps (plainConfig true) plainStart plainInit = some w ∧
      ((resetCalled (plainConfig true) w).LikeNew ∧ (resetCalled (plainConfig true) w).host = w.host ↔
        ResetComplete (plainConfig true) w) := by
  have hrun : ∃ w, runSteps (plainConfig true) plainStart plainInit = some w ∧ w.user = .idle ∧
      (resetCalled (plainConfig true) w).halted = none := ⟨_, rfl, rfl, rfl⟩
  obtain ⟨w, hrun, huser, hreturns⟩ := hrun
  have hlive : w.user ≠ .freed := by simp [huser]
  exact ⟨w, hrun, likeNew_resetCalled_iff (reachable_of_run hrun) hlive hreturns⟩

/-- A client that waits for the handshake response. -/
def announcedRun : List (List Bool × Label) :=
  [([], .connect .connect2), ([], .tcpConnect 0 true)]

/-- **The connection breaks during the handshake.** The reset leaves the handshake timer of the
old connection running, and its connect request pending. -/
theorem not_likeNew_announcedRun :
    ∃ w w', runSteps (plainConfig true) announcedRun plainInit = some w ∧
      Reachable (plainConfig true) w ∧ (resetCalled (plainConfig true) w).halted = none ∧
      (resetCalled (plainConfig true) w).handshakeTimer.map Timer.active = some true ∧
      (resetCalled (plainConfig true) w).connReq = w.connReq ∧ w.connReq ≠ none ∧
      ¬ ((resetCalled (plainConfig true) w).LikeNew ∧
        (resetCalled (plainConfig true) w).host = w.host) ∧
      step (plainConfig true) [] (.tcpRead 0 [] .error) w = some w' ∧ w'.state = .inited ∧
      w'.handshakeTimer.map Timer.active = some true ∧ w'.connReq = w.connReq := by
  have hrun : ∃ w w', runSteps (plainConfig true) announcedRun plainInit = some w ∧
      (resetCalled (plainConfig true) w).halted = none ∧
      (resetCalled (plainConfig true) w).handshakeTimer.map Timer.active = some true ∧
      (resetCalled (plainConfig true) w).connReq = w.connReq ∧ w.connReq ≠ none ∧
      step (plainConfig true) [] (.tcpRead 0 [] .error) w = some w' ∧ w'.state = .inited ∧
      w'.handshakeTimer.map Timer.active = some true ∧ w'.connReq = w.connReq :=
    ⟨_, _, rfl, rfl, rfl, rfl, by decide, rfl, rfl, rfl, rfl⟩
  obtain ⟨w, w', hrun, hreturns, hactive, hpending, hsome, hstep⟩ := hrun
  refine ⟨w, w', hrun, reachable_of_run hrun, hreturns, hactive, hpending, hsome, ?_, hstep⟩
  rintro ⟨hnew, -⟩
  exact hsome (hpending.symm.trans hnew.connReq)

end Libpomelo
