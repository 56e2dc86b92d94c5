import Libpomelo.OneTransport

/-!
# Recovery from a failure (`client.c`, `network.c`, `pkg-handshake.c`)

A handler that finds the connection or the attempt to connect failed calls `pc_client_stop`,
which for a client with `enable_reconnect` destroys the transport, counts the failure and
arms the reconnect timer. What the recovery depends on is one record (`Lifeline`), and a
handler does one of two things to it: nothing, or all of `pc__client_reconnect`
(`Copes`).

The second needs `reconnecting` at `0`. While the client is `reconnecting`,
`pc_client_stop` returns at once, and only the handlers that take the flag back recover: the
read error, the reconnect timer whose attempt fails, and those that call
`pc__client_reconnected_cb` (`Recoverable`).
-/

namespace Libpomelo

/-! ## The fields of a recovery -/

/-- The fields that a recovery changes. -/
structure Lifeline : Type where
  /-- `reconnecting` -/
  reconnecting : Bool
  /-- `reconnects` -/
  reconnects : ℕ
  /-- `reconnect_timer` -/
  reconnectTimer : Timer
  /-- it was closed -/
  reconnectClosed : Bool
  /-- `transport` -/
  transport : Option ℕ
  /-- the states of all transports -/
  transports : List TransportState

/-- The lifeline of a client. -/
def World.lifeline (w : World) : Lifeline :=
  ⟨w.reconnecting, w.reconnects, w.reconnectTimer, w.reconnectClosed, w.transport, w.transports⟩

/-- After `pc__client_reconnect`: the transport is destroyed, the failure counted and the timer
armed. -/
def Lifeline.recovered (line : Lifeline) : Lifeline where
  reconnecting := true
  reconnects := line.reconnects + 1
  reconnectTimer := ⟨true, 0⟩
  reconnectClosed := line.reconnectClosed
  transport := none
  transports := match line.transport with
    | some t => closeSocket t line.transports
    | none => line.transports

/-! ## Failures -/

/-- A handler reports a failure. -/
def Event.fails : Event → Bool
  | .failure _ => true
  | _ => false

/-- `pc_client_stop` closes the client. -/
def Event.closes : Event → Bool
  | .closed => true
  | _ => false

/-- The failures reported so far. -/
def World.failures (w : World) : ℕ := w.trace.countP Event.fails

/-- How often the client was closed so far. -/
def World.closings (w : World) : ℕ := w.trace.countP Event.closes

/-- The transport whose failure the handler can find: the one it is called for, or the current
one. -/
def Label.concerns (w : World) : Label → Option ℕ
  | .tcpConnect i _ => (w.connects[i]?).map Prod.fst
  | .writeDone i _ => (w.writes[i]?).map Write.transport
  | .tcpRead t _ _ => some t
  | _ => w.transport

/-- The connect request that the handler calls back when it fails. -/
def Label.answers (w : World) : Label → Option ConnReq
  | .tcpConnect i _ => (w.connects[i]?).map Prod.snd
  | .writeDone _ _ => w.connReq
  | _ => none

/-- The handler itself sets `reconnecting` to `0` before it stops the client: the read callback
with an error or the end of the stream, and the reconnect timer whose attempt fails. -/
def Label.clears : Label → Bool
  | .tcpRead _ _ .error | .reconnectTimer => true
  | _ => false

/-- The connect request belongs to an attempt of the reconnect timer. -/
def ConnReq.retries (req : ConnReq) : Bool := req.cb = .reconnected

/-- The handler takes the flag `reconnecting` back if it is set: by itself, or because the request
that it calls back is one of the reconnect timer's. -/
def Recoverable (w : World) (l : Label) : Prop :=
  l.clears = true ∨ w.reconnecting = (l.answers w).any ConnReq.retries

instance (w : World) (l : Label) : Decidable (Recoverable w l) :=
  inferInstanceAs (Decidable (_ ∨ _))

/-- A handler has reported a failure and returned, and the client is neither `DISCONNECTING` nor
`CLOSED`. -/
def Fails (w w' : World) : Prop :=
  w.failures < w'.failures ∧ w'.halted = none ∧ w'.state ≠ .disconnecting ∧ w'.state ≠ .closed

instance (w w' : World) : Decidable (Fails w w') :=
  inferInstanceAs (Decidable (_ ∧ _ ∧ _ ∧ _))

/-- Such a handler finds a client that `pc_client_stop` has not closed, does not close it itself,
and can take the flag back. -/
def FailsOpen (w : World) (l : List Bool × Label) (w' : World) : Prop :=
  Fails w w' → w.reconnectClosed = false ∧ w'.closings = w.closings ∧ Recoverable w l.2

instance (w : World) (l : List Bool × Label) (w' : World) : Decidable (FailsOpen w l w') :=
  inferInstanceAs (Decidable (_ → _))

/-- The transport connects or works. One that `pc_transport_destroy` was called for does not: it is
`CLOSED`, or `INITED` if its connect never began. -/
def LiveIn (transports : List TransportState) (t : ℕ) : Prop :=
  transports[t]? = some .connecting ∨ transports[t]? = some .working

/-- **The client recovers.** The transport that failed is destroyed, the failure is counted once,
and the reconnect timer is armed. -/
structure Recovers (w : World) (l : Label) (w' : World) : Prop where
  /-- no transport is left -/
  transport : w'.transport = none
  /-- the one that failed was destroyed, and so was one that the handler has made -/
  destroyed : ∀ t, l.concerns w = some t ∨ w.transports.length ≤ t → ¬ LiveIn w'.transports t
  /-- `reconnects` -/
  counted : w'.reconnects = w.reconnects + 1
  /-- `reconnect_timer` -/
  armed : w'.reconnectTimer.active = true ∧ w'.reconnectClosed = false

/-! ## What a handler does to the lifeline -/

/-- The lifeline is as it was, and no failure is reported while the client can recover; or the
client has recovered. -/
inductive Aftermath (w w' : World) : Prop where
  /-- nothing has changed -/
  | kept : w'.lifeline = w.lifeline → (w.reconnecting = false → w'.failures = w.failures) →
      Aftermath w w'
  /-- the client was reset, once -/
  | recovered : w.reconnecting = false → w'.lifeline = w.lifeline.recovered → Aftermath w w'

/-- **The client copes**, unless nothing runs any more or it is closed on the way. -/
structure Copes (w w' : World) : Prop where
  /-- what has stopped running stays so -/
  halted : w'.halted = none → w.halted = none
  /-- events are only added -/
  failures : w.failures ≤ w'.failures
  /-- events are only added -/
  closings : w.closings ≤ w'.closings
  /-- what becomes of the lifeline -/
  aftermath : w'.halted = none → w'.closings = w.closings → Aftermath w w'

section Handlers

variable {cfg : Config} {w w₁ w' : World}

/-- The flag is part of the lifeline. -/
theorem reconnecting_eq (h : w'.lifeline = w.lifeline) : w'.reconnecting = w.reconnecting :=
  congrArg Lifeline.reconnecting h

theorem Aftermath.trans (h : Aftermath w w₁) (h' : Aftermath w₁ w') : Aftermath w w' := by
  cases h with
  | kept hline hfails =>
    have hrec := reconnecting_eq hline
    cases h' with
    | kept hline' hfails' =>
      refine .kept (hline'.trans hline) fun hno => ?_
      exact (hfails' (hrec.trans hno)).trans (hfails hno)
    | recovered hno hline' =>
      refine .recovered (hrec.symm.trans hno) ?_
      rw [hline', hline]
  | recovered hno hline =>
    have hrec : w₁.reconnecting = true := congrArg Lifeline.reconnecting hline
    cases h' with
    | kept hline' _ => exact .recovered hno (hline'.trans hline)
    | recovered hno' _ => exact absurd (hrec.symm.trans hno') (by decide)

theorem Copes.refl (w : World) : Copes w w :=
  ⟨id, le_rfl, le_rfl, fun _ _ => .kept rfl fun _ => rfl⟩

theorem Copes.trans (h : Copes w w₁) (h' : Copes w₁ w') : Copes w w' := by
  refine ⟨fun hrun => h.halted (h'.halted hrun), h.failures.trans h'.failures,
    h.closings.trans h'.closings, fun hrun hopen => ?_⟩
  -- closings only grow, so a client left open at the end was open in between
  have hopen₁ : w₁.closings = w.closings :=
    le_antisymm (h'.closings.trans hopen.le) h.closings
  exact (h.aftermath (h'.halted hrun) hopen₁).trans (h'.aftermath hrun (hopen.trans hopen₁.symm))

/-- Something else changes. -/
theorem Copes.quiet (htrace : w'.trace = w.trace) (hline : w'.lifeline = w.lifeline)
    (hhalted : w'.halted = w.halted) : Copes w w' := by
  have hfails : w'.failures = w.failures := congrArg (List.countP Event.fails) htrace
  have hcloses : w'.closings = w.closings := congrArg (List.countP Event.closes) htrace
  exact ⟨fun hrun => hhalted.symm.trans hrun, hfails.ge, hcloses.ge,
    fun _ _ => .kept hline fun _ => hfails⟩

/-- An event is recorded that reports no failure. -/
theorem Copes.event {e : Event} (htrace : w'.trace = e :: w.trace)
    (hline : w'.lifeline = w.lifeline) (hhalted : w'.halted = w.halted) (he : e.fails = false) :
    Copes w w' := by
  have hfails : w'.failures = w.failures := by
    rw [World.failures, htrace, List.countP_cons_of_neg (by simp [he])]
    rfl
  refine ⟨fun hrun => hhalted.symm.trans hrun, hfails.ge, ?_, fun _ _ => .kept hline fun _ => hfails⟩
  rw [World.closings, World.closings, htrace]
  exact (List.sublist_cons_self e w.trace).countP_le

/-- Nothing runs from here on. -/
theorem Copes.halt (w : World) (h : Halt) : Copes w (w.halt h) :=
  ⟨fun hrun => absurd hrun (by simp [World.halt]), le_rfl, le_rfl,
    fun hrun => absurd hrun (by simp [World.halt])⟩

theorem closings_closed (htrace : w'.trace = .closed :: w.trace) : w'.closings = w.closings + 1 := by
  rw [World.closings, htrace, List.countP_cons_of_pos (by rfl)]
  rfl

/-- The client is closed. -/
theorem Copes.close (htrace : w'.trace = .closed :: w.trace) (hhalted : w'.halted = w.halted) :
    Copes w w' := by
  have hcloses := closings_closed htrace
  refine ⟨fun hrun => hhalted.symm.trans hrun, ?_, by omega, fun _ hopen => ?_⟩
  · rw [World.failures, World.failures, htrace]
    exact (List.sublist_cons_self _ w.trace).countP_le
  · exact absurd hopen (by omega)

theorem Copes.andThen {f : World → World} (h : Copes w w') (hf : ∀ v : World, Copes v (f v)) :
    Copes w (w'.andThen f) := by
  rw [World.andThen]
  split
  · exact h
  · exact h.trans (hf _)

/-- What went before changed something else. -/
theorem Copes.behind (h : Copes w₁ w') (htrace : w₁.trace = w.trace)
    (hline : w₁.lifeline = w.lifeline) (hhalted : w₁.halted = w.halted) : Copes w w' :=
  (Copes.quiet htrace hline hhalted).trans h

/-- What went before recorded an event. -/
theorem Copes.after {e : Event} (h : Copes w₁ w') (htrace : w₁.trace = e :: w.trace)
    (hline : w₁.lifeline = w.lifeline) (hhalted : w₁.halted = w.halted) (he : e.fails = false) :
    Copes w w' := (Copes.event htrace hline hhalted he).trans h

/-! ## Calls -/

theorem copes_asyncWrite (type : ReqType) (id : ℕ) (route : Bytes) (msg : Option Json) (w : World) :
    Copes w (asyncWrite type id route msg w) := by
  have hcases := asyncWrite_cases type id route msg w
  generalize asyncWrite type id route msg w = w' at hcases ⊢
  cases hcases with
  | failed => exact .quiet rfl rfl rfl
  | accepted => exact .event rfl rfl rfl rfl

/-- **`pc_client_stop`**, given what it does to reconnect. -/
theorem copes_stopWith {reconnect : World → World}
    (hrec : ∀ v : World, v.reconnecting = false → Copes v (reconnect v)) (w : World) :
    Copes w (stopWith cfg reconnect w) := by
  have hstop : Copes w (w.note (.stop w.state w.reconnecting)) := .event rfl rfl rfl rfl
  rw [stopWith]
  split
  · split
    · exact hstop
    · next hno => exact hstop.trans (hrec _ (Bool.eq_false_iff.mpr hno))
  · split
    · exact hstop.trans (.quiet rfl rfl rfl)
    · split
      · exact hstop
      · exact hstop.trans (.close rfl rfl)

theorem copes_userActWith {reconnect : World → World}
    (hrec : ∀ v : World, v.reconnecting = false → Copes v (reconnect v)) (w : World) (act : UserAct) :
    Copes w (userActWith cfg reconnect w act) := by
  cases act with
  | stop => exact copes_stopWith hrec w
  | disconnect =>
    have hset : Copes w (disconnectSet w) := .event rfl rfl rfl rfl
    rw [userActWith, disconnectSend]
    split
    · exact hset.trans (.event rfl rfl rfl rfl)
    · have hsend : Copes w ((disconnectSet w).note (.closeSend false)) :=
        hset.trans (.event rfl rfl rfl rfl)
      exact hsend.trans (.halt _ _)
  | request route msg =>
    rw [userActWith, pcRequest]
    split
    · exact .refl w
    · exact (copes_asyncWrite ..).behind rfl rfl rfl
  | notify route msg =>
    rw [userActWith, pcNotify]
    split
    · exact .refl w
    · exact copes_asyncWrite ..
  | protoCopy version client server => exact .event rfl rfl rfl rfl

theorem copes_callbackWith {reconnect : World → World}
    (hrec : ∀ v : World, v.reconnecting = false → Copes v (reconnect v)) {e : Event}
    (he : e.fails = false) (w : World) : Copes w (callbackWith cfg reconnect e w) :=
  callbackWith_preserves (P := Copes w)
    (fun w' act h => h.trans (copes_userActWith hrec w' act)) (.event rfl rfl rfl he)

/-- The client is `reconnecting` while the callbacks of its requests run, so none of them resets
it once more. -/
theorem copes_releases (cfg : Config) (n : ℕ) (w : World) : Copes w (requestsClear (releaseInReset cfg) n w) := by
  refine requestsClear_preserves (P := Copes w) ?_ _ _ (.refl w)
  intro v key req before after h _
  exact h.trans ((copes_callbackWith (fun u _ => .refl u) rfl _).behind rfl rfl rfl)

/-- **`pc__client_reconnect`** recovers a client that no callback closes. -/
theorem clientReconnect_lifeline (hrun : (clientReconnect cfg w).halted = none)
    (hopen : (clientReconnect cfg w).closings = w.closings) :
    (clientReconnect cfg w).lifeline = w.lifeline.recovered := by
  have hclear := copes_releases cfg w.requests.length
    (stopTimers (dropTransport { w with reconnecting := true, resetting := true }))
  have hcases := clientReconnect_cases cfg w
  dsimp only [dropTransport, stopTimers] at hclear hcases
  generalize requestsClear (releaseInReset cfg) w.requests.length _ = v at hclear hcases
  generalize clientReconnect cfg w = w' at hrun hopen hcases ⊢
  cases hcases with
  | crashed hhalt => exact absurd hhalt (by simp [hrun])
  | reset hrun' =>
    obtain ⟨hline, -⟩ | ⟨habsurd, -⟩ := hclear.aftermath hrun' hopen
    · show { v.lifeline with
        reconnects := v.lifeline.reconnects + 1, reconnectTimer := ⟨true, 0⟩ } = w.lifeline.recovered
      rw [hline]
      rfl
    · exact absurd habsurd (by simp)

theorem copes_clientReconnect (w : World) (hno : w.reconnecting = false) :
    Copes w (clientReconnect cfg w) := by
  have hclear := copes_releases cfg w.requests.length
    (stopTimers (dropTransport { w with reconnecting := true, resetting := true }))
  have hline : (clientReconnect cfg w).halted = none →
      (clientReconnect cfg w).closings = w.closings →
      (clientReconnect cfg w).lifeline = w.lifeline.recovered := clientReconnect_lifeline
  have hcases := clientReconnect_cases cfg w
  dsimp only [dropTransport, stopTimers] at hclear hcases
  generalize requestsClear (releaseInReset cfg) w.requests.length _ = v at hclear hcases
  generalize clientReconnect cfg w = w' at hline hcases ⊢
  cases hcases with
  | crashed =>
    exact ⟨hclear.halted, hclear.failures, hclear.closings,
      fun hrun hopen => .recovered hno (hline hrun hopen)⟩
  | reset =>
    exact ⟨hclear.halted, hclear.failures, hclear.closings,
      fun hrun hopen => .recovered hno (hline hrun hopen)⟩

theorem copes_clientStop (w : World) : Copes w (clientStop cfg w) :=
  copes_stopWith copes_clientReconnect w

/-- **`pc_client_stop`** recovers a client that is not `reconnecting`, unless it closes it. -/
theorem clientStop_lifeline (hcfg : cfg.enableReconnect = true) (hno : w.reconnecting = false)
    (hrun : (clientStop cfg w).halted = none) (hopen : (clientStop cfg w).closings = w.closings) :
    (clientStop cfg w).lifeline = w.lifeline.recovered := by
  rw [clientStop, stopWith] at hrun hopen ⊢
  by_cases hstate : w.state = .disconnecting
  · -- the client is closed
    rw [if_neg (fun h => h.2 hstate), if_neg (by simp [World.note, hstate]),
      if_neg (by simp [World.note, hstate])] at hopen
    have hmore : (clientClose cfg (w.note (.stop w.state w.reconnecting))).closings =
        w.closings + 1 := closings_closed (w := w.note (.stop w.state w.reconnecting)) rfl
    omega
  · rw [if_pos ⟨hcfg, hstate⟩, if_neg (by simp [World.note, hno])] at hrun hopen ⊢
    exact clientReconnect_lifeline hrun hopen

/-- **A failure is reported** and the client stopped: unless it is `reconnecting`, it recovers. -/
theorem copes_failWith (hcfg : cfg.enableReconnect = true) (f : Failure) (w : World) :
    Copes w (failWith cfg f w) := by
  have hstop : Copes (w.note (.failure f)) (failWith cfg f w) := copes_clientStop _
  refine ⟨hstop.halted, le_trans ?_ hstop.failures, hstop.closings, fun hrun hopen => ?_⟩
  · exact (List.sublist_cons_self _ w.trace).countP_le
  · by_cases hno : w.reconnecting = false
    · exact .recovered hno (clientStop_lifeline hcfg hno hrun hopen)
    · -- `pc_client_stop` returns at once
      obtain ⟨hline, -⟩ | ⟨hyes, -⟩ := hstop.aftermath hrun hopen
      · exact .kept hline fun hyes => absurd hyes hno
      · exact absurd hyes hno

theorem copes_callback {e : Event} (he : e.fails = false) (w : World) : Copes w (callback cfg e w) :=
  copes_callbackWith copes_clientReconnect he w

theorem copes_emitEvent (event : String) (w : World) : Copes w (emitEvent cfg event w) :=
  copes_callback rfl w

theorem copes_condBroadcast (w : World) : Copes w (condBroadcast w) := by
  rw [condBroadcast]
  split
  · exact .event rfl rfl rfl rfl
  · exact .event rfl rfl rfl rfl

/-- The callback of a connect request that is not the reconnect timer's. -/
theorem copes_connectCb {req : ConnReq} (hreq : req.retries = false) (status : ℤ) (w : World) :
    Copes w (connectCb cfg req status w) := by
  have hnote : Copes w (w.note (.connectCb req status)) := .event rfl rfl rfl rfl
  rw [connectCb]
  split
  · exact copes_callback rfl w
  · dsimp only
    split
    · exact hnote.trans (copes_clientStop _)
    · exact hnote.trans (copes_condBroadcast _)
  · dsimp only
    split
    · exact hnote.trans (copes_clientStop _)
    · exact hnote.trans (copes_emitEvent _ _)
  · next hcb => exact absurd hreq (by simp [ConnReq.retries, hcb])

/-! ## Packages -/

theorem copes_heartbeat (w : World) : Copes w (heartbeat w) := by
  rw [heartbeat]
  split
  · exact .quiet rfl rfl rfl
  · exact .halt w _

theorem copes_handshakeAck (w : World) : Copes w (handshakeAck w) := by
  have hcases := handshakeAck_cases w
  generalize handshakeAck w = w' at hcases ⊢
  cases hcases with
  | failed => exact .quiet rfl rfl rfl
  | crashed supply => exact (Copes.halt { w with supply := supply } _).behind rfl rfl rfl
  | queued => exact .event rfl rfl rfl rfl

theorem copes_setupSys (res : Json) (w : World) : Copes w (setupSys res w) := by
  rw [(inert_setupSys res w).eq]
  exact .quiet rfl rfl rfl

theorem copes_askUser (res : Json) (w : World) : Copes w (askUser cfg res w).1 := by
  rw [askUser]
  split
  · exact .refl w
  · exact copes_callback rfl w

theorem copes_handshakeResp (body : Bytes) (w : World) :
    Copes w (handshakeResp cfg body w).1 := by
  rw [handshakeResp]
  split
  · exact .halt w _
  · next timer _ =>
    have hstop : Copes w { w with handshakeTimer := some (uvTimerStop timer) } := .quiet rfl rfl rfl
    generalize { w with handshakeTimer := some (uvTimerStop timer) } = w₁ at hstop ⊢
    dsimp only
    split
    · exact hstop
    · next res _ =>
      split
      · exact hstop
      · have hsetup : Copes w (setupSys res w₁) := hstop.trans (copes_setupSys res w₁)
        generalize setupSys res w₁ = w₂ at hsetup ⊢
        have hask : Copes w (askUser cfg res (w₂.note
            (.shook w₂.transport res w₂.tables.serverProtos w₂.tables.clientProtos))).1 :=
          hsetup.trans ((copes_askUser res _).after rfl rfl rfl rfl)
        generalize askUser cfg res
          (w₂.note (.shook w₂.transport res w₂.tables.serverProtos w₂.tables.clientProtos)) = r
          at hask ⊢
        split
        · refine Copes.andThen ?_ copes_heartbeat
          exact hask.andThen fun v => (copes_handshakeAck _).after rfl rfl rfl rfl
        · exact hask.andThen copes_heartbeat

theorem copes_processResponse (id : ℕ) (w : World) : Copes w (processResponse cfg id w) := by
  rw [processResponse]
  split
  · exact .refl w
  · exact (copes_callback rfl _).behind rfl rfl rfl

theorem copes_pcData (body : Bytes) (w : World) : Copes w (pcData cfg body w).1 := by
  rw [pcData]
  dsimp only
  split
  · exact .refl w
  · exact .halt w _
  · split
    · exact (copes_processResponse _ _).after rfl rfl rfl rfl
    · split
      · exact (copes_callback rfl _).after rfl rfl rfl rfl
      · exact (Copes.halt _ _).after rfl rfl rfl rfl

theorem copes_dispatch (type : ℕ) (body : Bytes) (w : World) :
    Copes w (dispatch cfg type body w).1 := by
  rw [dispatch]
  split
  · exact copes_handshakeResp body w
  split
  · exact copes_heartbeat w
  split
  · exact copes_pcData body w
  split
  · exact copes_emitEvent _ w
  · exact .refl w

/-- **`pc__pkg_cb`** stops the client when it refuses the package. -/
theorem copes_pkgCb (hcfg : cfg.enableReconnect = true) (type : ℕ) (body : Bytes) (w : World) :
    Copes w (pkgCb cfg type body w) := by
  have hdispatch : Copes w (dispatch cfg type body (w.note (.pkg type body))).1 :=
    (copes_dispatch type body _).after rfl rfl rfl rfl
  rw [pkgCb]
  generalize dispatch cfg type body (w.note (.pkg type body)) = r at hdispatch ⊢
  rcases r with ⟨w₁, _ | _⟩
  · exact hdispatch.andThen (copes_failWith hcfg _)
  · exact hdispatch

/-- **Arriving bytes**: the packages one by one, and then the parser's verdict. -/
theorem copes_clientOnTcpRead (hcfg : cfg.enableReconnect = true) (ms : List Bool) (data : Bytes)
    (w : World) : Copes w (clientOnTcpRead cfg ms data w) := by
  have hfeed : ∀ rc w', pkgParserFeed (clientHost cfg) ms w data = some (rc, w') → Copes w w' := by
    intro rc w' hfeed
    refine feedLoop_preserves (clientHost cfg) (P := Copes w) ?_ ?_ _ (.refl w) hfeed
    · exact fun s p h => h.trans (.quiet rfl rfl rfl)
    · exact fun type buf len s h => h.andThen (copes_pkgCb hcfg type buf.bytes)
  rw [clientOnTcpRead]
  split
  · next h => exact hfeed _ _ h
  · next h => exact (hfeed _ _ h).andThen (copes_failWith hcfg _)
  · exact .halt w _

/-! ## Handlers without a failure -/

/-- What a call leaves behind is no failure. -/
theorem failures_adds (h : w.Adds w') : w'.failures = w.failures := by
  obtain ⟨newer, htrace, hcalls⟩ := h
  rw [World.failures, htrace, List.countP_append, World.failures, Nat.add_eq_right]
  refine List.countP_eq_zero.mpr fun e he hfails => ?_
  have hcall := hcalls e he
  cases e with
  | failure => exact absurd hcall (by simp [Event.OfCall])
  | _ => exact absurd hfails (by simp [Event.fails])

theorem failures_event {e : Event} (htrace : w'.trace = e :: w.trace) (he : e.fails = false) :
    w'.failures = w.failures := by
  rw [World.failures, htrace, List.countP_cons_of_neg (by simp [he])]
  rfl

theorem failures_clientStop (w : World) : (clientStop cfg w).failures = w.failures :=
  failures_adds (adds_stopWith adds_clientReconnect w)

theorem failures_callback {e : Event} (he : e.fails = false) (w : World) :
    (callback cfg e w).failures = w.failures :=
  (failures_adds (adds_callbackWith adds_clientReconnect e w)).trans (failures_event rfl he)

theorem failures_condBroadcast (w : World) : (condBroadcast w).failures = w.failures := by
  rw [condBroadcast]
  split
  · exact failures_event (e := .broadcast true) rfl rfl
  · exact failures_event (e := .broadcast false) rfl rfl

theorem failures_connectCb (req : ConnReq) (status : ℤ) (w : World) :
    (connectCb cfg req status w).failures = w.failures := by
  have hnote : (w.note (.connectCb req status)).failures = w.failures := failures_event rfl rfl
  rw [connectCb]
  split
  · exact failures_callback rfl w
  · dsimp only
    split
    · exact (failures_clientStop _).trans hnote
    · exact (failures_condBroadcast _).trans hnote
  · dsimp only
    split
    · exact (failures_clientStop _).trans hnote
    · exact (failures_callback rfl _).trans hnote
  · dsimp only
    split
    · exact (failures_callback rfl _).trans hnote
    · exact (failures_clientStop _).trans hnote

/-- Writing the handshake request touches nothing of this. -/
theorem handshakeReq_keeps (cfg : Config) (w : World) : (handshakeReq cfg w).1.lifeline = w.lifeline ∧
    (handshakeReq cfg w).1.failures = w.failures ∧ (handshakeReq cfg w).1.closings = w.closings := by
  have hload : (loadProtoVer w).lifeline = w.lifeline ∧ (loadProtoVer w).failures = w.failures ∧
      (loadProtoVer w).closings = w.closings := by
    rw [loadProtoVer]
    split <;> exact ⟨rfl, rfl, rfl⟩
  have hcases := handshakeReq_cases cfg w
  generalize loadProtoVer w = w₁ at hload hcases
  generalize handshakeReq cfg w = r at hcases ⊢
  cases hcases <;> exact hload

theorem failures_finishConnect (status : ℤ) (w : World) :
    (finishConnect cfg status w).failures = w.failures := by
  rw [finishConnect]
  split
  · rfl
  · exact failures_connectCb _ status _

theorem failures_sendReq (cfg : Config) (req : TcpReq) (cb : WriteCb) (w : World) :
    (sendReq cfg req cb w).1.failures = w.failures := by
  rw [sendReq]
  split <;> rfl

theorem failures_requestsSet (req : TcpReq) (w : World) :
    (requestsSet cfg req w).failures = w.failures := by
  rw [requestsSet]
  split
  · rfl
  split
  · rfl
  dsimp only
  split
  · rfl
  · split
    · rfl
    · exact failures_callback rfl _

theorem failures_andThen {f : World → World} (hf : ∀ v : World, (f v).failures = v.failures)
    (w : World) : (w.andThen f).failures = w.failures := by
  rw [World.andThen]
  split
  · rfl
  · exact hf w

theorem failures_asyncWriteCb (req : TcpReq) (w : World) :
    (asyncWriteCb cfg req w).failures = w.failures := by
  have hfired : (w.note (.asyncFired req (w.working req.transport))).failures = w.failures :=
    failures_event rfl rfl
  rw [asyncWriteCb]
  generalize w.note (.asyncFired req (w.working req.transport)) = w₁ at hfired ⊢
  split
  · have hsend := failures_sendReq cfg req (.request req) w₁
    rw [request]
    split
    · exact (failures_callback rfl w₁).trans hfired
    generalize sendReq cfg req (.request req) w₁ = r at hsend ⊢
    obtain ⟨w₂, _ | _⟩ := r
    · exact (failures_callback rfl w₂).trans (hsend.trans hfired)
    · exact (failures_andThen (failures_requestsSet req) w₂).trans (hsend.trans hfired)
  · have hsend := failures_sendReq cfg req (.notify req) w₁
    rw [notify]
    split
    · exact (failures_callback rfl w₁).trans hfired
    generalize sendReq cfg req (.notify req) w₁ = r at hsend ⊢
    obtain ⟨w₂, _ | _⟩ := r
    · exact (failures_callback rfl w₂).trans (hsend.trans hfired)
    · exact hsend.trans hfired

theorem failures_onRequest (req : TcpReq) (status : ℤ) (w : World) :
    (onRequest cfg req status w).failures = w.failures := by
  rw [onRequest]
  split
  · exact failures_callback rfl w
  split
  · exact failures_callback rfl (requestsDel req.id w)
  · rfl

theorem failures_onNotify (req : TcpReq) (status : ℤ) (w : World) :
    (onNotify cfg req status w).failures = w.failures := by
  rw [onNotify]
  split <;> exact failures_callback rfl w

theorem failures_heartbeatReqCb (status : ℤ) (w : World) :
    (heartbeatReqCb cfg status w).failures = w.failures := by
  rw [heartbeatReqCb]
  split
  · split
    · exact failures_clientStop w
    · rfl
  · rfl

theorem failures_pcConnect (cb : ConnectCb) (w : World) :
    (pcConnect cb w).1.failures = w.failures := by
  have hcases := pcConnect_cases cb w
  generalize pcConnect cb w = r at hcases ⊢
  cases hcases <;> rfl

/-- **An attempt of the reconnect timer** reports nothing, and where it fails it leaves at most a
transport behind that never connects. -/
theorem reconnectAttempt_keeps (w : World) :
    (reconnectAttempt w).1.failures = w.failures ∧ (reconnectAttempt w).1.reconnects = w.reconnects ∧
      ((reconnectAttempt w).2 = false → (reconnectAttempt w).1.closings = w.closings ∧
        (reconnectAttempt w).1.transport = w.transport ∧
        (reconnectAttempt w).1.reconnectClosed = w.reconnectClosed ∧
        ∀ t, w.transports.length ≤ t → ¬ LiveIn (reconnectAttempt w).1.transports t) := by
  have hold : ∀ t, w.transports.length ≤ t → ¬ LiveIn w.transports t := by
    intro t ht
    simp [LiveIn, List.getElem?_eq_none ht]
  obtain ⟨supply, heq | ⟨-, heq⟩⟩ := reconnectAttempt_cases w
  · rw [heq]
    exact ⟨rfl, rfl, fun _ => ⟨rfl, rfl, rfl, hold⟩⟩
  rw [heq]
  have hcases := pcConnect_cases .reconnected { w with supply := supply }
  generalize pcConnect .reconnected { w with supply := supply } = r at hcases ⊢
  cases hcases with
  | invalid | refused | crashed => exact ⟨rfl, rfl, fun _ => ⟨rfl, rfl, rfl, hold⟩⟩
  | notConnected =>
    refine ⟨rfl, rfl, fun _ => ⟨rfl, rfl, rfl, fun t ht hlive => hold t ht ?_⟩⟩
    exact hlive.imp (getElem?_concat_ne (by decide) t).1 (getElem?_concat_ne (by decide) t).1
  | launched => exact ⟨rfl, rfl, fun habsurd => absurd habsurd (by simp)⟩

/-! ## Recovering -/

/-- **A failure that is reported while the client can recover.** -/
theorem Copes.lifeline (h : Copes w w') (hno : w.reconnecting = false) (hrun : w'.halted = none)
    (hopen : w'.closings = w.closings) (hfails : w.failures < w'.failures) :
    w'.lifeline = w.lifeline.recovered := by
  obtain ⟨-, hsame⟩ | ⟨-, hline⟩ := h.aftermath hrun hopen
  · exact absurd (hsame hno) hfails.ne'
  · exact hline

/-- A client that has recovered stays so. -/
theorem Copes.kept (h : Copes w w') (hyes : w.reconnecting = true) (hrun : w'.halted = none)
    (hopen : w'.closings = w.closings) : w'.lifeline = w.lifeline := by
  obtain ⟨hline, -⟩ | ⟨hno, -⟩ := h.aftermath hrun hopen
  · exact hline
  · exact absurd (hyes.symm.trans hno) (by decide)

/-- `pc__client_reconnected_cb` after a failure takes the flag back and stops the client. -/
theorem connectCb_retries {req : ConnReq} (hreq : req.retries = true) (w : World) :
    connectCb cfg req (-1) w = clientStop cfg { w.note (.connectCb req (-1)) with
      reconnecting := false, reconnectTimer := uvTimerStop w.reconnectTimer } := by
  have hcb : req.cb = .reconnected := of_decide_eq_true hreq
  rw [connectCb, hcb]
  rfl

/-- So the client recovers from where it was before. -/
theorem connectCb_lifeline (hcfg : cfg.enableReconnect = true) {req : ConnReq}
    (hreq : req.retries = true) (hrun : (connectCb cfg req (-1) w).halted = none)
    (hopen : (connectCb cfg req (-1) w).closings = w.closings) :
    (connectCb cfg req (-1) w).lifeline = w.lifeline.recovered := by
  rw [connectCb_retries hreq] at hrun hopen ⊢
  exact clientStop_lifeline hcfg rfl hrun hopen

/-- A connect callback neither undoes a halt nor a close. -/
theorem connectCb_grows (cfg : Config) (req : ConnReq) (w : World) :
    ((connectCb cfg req (-1) w).halted = none → w.halted = none) ∧
      w.closings ≤ (connectCb cfg req (-1) w).closings := by
  rcases hreq : req.retries with _ | _
  · have hcopes : Copes w (connectCb cfg req (-1) w) := copes_connectCb hreq (-1) w
    exact ⟨hcopes.halted, hcopes.closings⟩
  · rw [connectCb_retries hreq]
    have hcopes : Copes { w.note (.connectCb req (-1)) with
          reconnecting := false, reconnectTimer := uvTimerStop w.reconnectTimer }
        (clientStop cfg { w.note (.connectCb req (-1)) with
          reconnecting := false, reconnectTimer := uvTimerStop w.reconnectTimer }) :=
      copes_clientStop _
    exact ⟨hcopes.halted, hcopes.closings⟩

/-- **A failure and the connect callback behind it** count once, whichever of the two calls of
`pc_client_stop` is the one that is not ignored. -/
theorem connectCb_recovers (hcfg : cfg.enableReconnect = true) {req : ConnReq} (hfail : Copes w w₁)
    (hfails : w.failures < w₁.failures) (hflag : w.reconnecting = req.retries)
    (hrun : (connectCb cfg req (-1) w₁).halted = none)
    (hopen : (connectCb cfg req (-1) w₁).closings = w.closings) :
    (connectCb cfg req (-1) w₁).lifeline = w.lifeline.recovered := by
  rcases hreq : req.retries with _ | _
  · -- the handler's own stop is the one that counts
    have hcb : Copes w₁ (connectCb cfg req (-1) w₁) := copes_connectCb hreq (-1) w₁
    exact (hfail.trans hcb).lifeline (hflag.trans hreq) hrun hopen (hfails.trans_le hcb.failures)
  · -- that one was ignored, and the callback takes the flag back and stops once more
    obtain ⟨hhalted, hcloses⟩ := connectCb_grows cfg req w₁
    have hopen₁ : w₁.closings = w.closings :=
      le_antisymm (hcloses.trans hopen.le) hfail.closings
    have hkept := hfail.kept (hflag.trans hreq) (hhalted hrun) hopen₁
    rw [connectCb_lifeline hcfg hreq hrun (hopen.trans hopen₁.symm), hkept]

/-- A failure is reported. -/
theorem failures_failWith (f : Failure) (w : World) :
    (failWith cfg f w).failures = w.failures + 1 := by
  rw [failWith, failures_clientStop]
  exact List.countP_cons_of_pos (by rfl)

/-- **The error path of `pc__on_tcp_connect`.** -/
theorem connectError_recovers (hcfg : cfg.enableReconnect = true) {f : Failure} {req : ConnReq}
    (hflag : w.reconnecting = req.retries) (hrun : (connectError cfg f req w).halted = none)
    (hopen : (connectError cfg f req w).closings = w.closings) :
    (connectError cfg f req w).lifeline = w.lifeline.recovered := by
  have hfail : Copes w (failWith cfg f { w with connReq := none }) :=
    (copes_failWith hcfg f _).behind rfl rfl rfl
  have hfails : (failWith cfg f { w with connReq := none }).failures = w.failures + 1 :=
    failures_failWith f _
  rw [connectError] at hrun hopen ⊢
  generalize failWith cfg f { w with connReq := none } = w₁ at hfail hfails hrun hopen ⊢
  have hrun₁ : w₁.halted = none := World.running_of_andThen hrun
  rw [World.andThen_of_none hrun₁] at hrun hopen ⊢
  exact connectCb_recovers hcfg hfail (by omega) hflag hrun hopen

/-- **A failed write of the handshake.** -/
theorem finishConnect_recovers (hcfg : cfg.enableReconnect = true) {f : Failure}
    (hf : f ≠ .heartbeatTimeout) (hflag : w.reconnecting = w.connReq.any ConnReq.retries)
    (hrun : (finishConnect cfg (-1) (failWith cfg f w)).halted = none)
    (hopen : (finishConnect cfg (-1) (failWith cfg f w)).closings = w.closings) :
    (finishConnect cfg (-1) (failWith cfg f w)).lifeline = w.lifeline.recovered := by
  have hm : Moves cfg w (failWith cfg f w) := moves_failWith hf w
  have hfail : Copes w (failWith cfg f w) := copes_failWith hcfg f w
  have hfails : (failWith cfg f w).failures = w.failures + 1 := failures_failWith f w
  rw [← hm.framed.connReq] at hflag
  rw [finishConnect] at hrun hopen ⊢
  generalize failWith cfg f w = w₁ at hfail hfails hflag hrun hopen ⊢
  split at hrun
  · next hnone =>
    rw [hnone] at hflag hopen
    exact hfail.lifeline hflag hrun hopen (by omega)
  · next req hreq =>
    rw [hreq] at hflag hopen
    exact connectCb_recovers hcfg (hfail.trans (.quiet rfl rfl rfl)) (by
      show w.failures < w₁.failures
      omega) hflag hrun hopen

/-- `uv_close` leaves a socket closed, and opens none. -/
theorem LiveIn.closeSocket {t t' : ℕ} {transports : List TransportState}
    (h : LiveIn (closeSocket t transports) t') : t' ≠ t ∧ LiveIn transports t' := by
  obtain hconnecting | hwork := h
  · obtain ⟨hbefore, hsame⟩ := open_closeSocket (by decide) hconnecting
    exact ⟨fun heq => absurd (hsame heq) (by decide), .inl hbefore⟩
  · obtain ⟨hbefore, hsame⟩ := open_closeSocket (by decide) hwork
    exact ⟨fun heq => absurd (hsame heq) (by decide), .inr hbefore⟩

/-- What the lifeline says about the recovery. -/
theorem Recovers.of_lifeline {l : Label} {line : Lifeline} (hline : w'.lifeline = line.recovered)
    (hcounted : line.reconnects = w.reconnects) (hopen : line.reconnectClosed = false)
    (hnew : ∀ t, w.transports.length ≤ t → ¬ LiveIn line.transports t)
    (hdestroyed : ∀ t, l.concerns w = some t → line.transport = some t ∨
      ∃ transports, line.transports = closeSocket t transports) : Recovers w l w' := by
  have htransports : w'.transports = line.recovered.transports := congrArg Lifeline.transports hline
  refine ⟨congrArg Lifeline.transport hline, ?_,
    (congrArg Lifeline.reconnects hline).trans (congrArg (· + 1) hcounted),
    congrArg (fun line => line.reconnectTimer.active) hline,
    (congrArg Lifeline.reconnectClosed hline).trans hopen⟩
  intro t ht hlive
  have hlive' : LiveIn line.recovered.transports t := htransports ▸ hlive
  rw [Lifeline.recovered] at hlive'
  dsimp only at hlive'
  -- the recovery opens none
  have hbefore : LiveIn line.transports t ∧ line.transport ≠ some t := by
    split at hlive'
    · next t' hcurrent =>
      obtain ⟨hne, hbefore⟩ := hlive'.closeSocket
      exact ⟨hbefore, fun heq => hne (Option.some.inj (heq.symm.trans hcurrent))⟩
    · next hnone => exact ⟨hlive', by rw [hnone]; simp⟩
  obtain ht | ht := ht
  · obtain hcurrent | ⟨transports, hclosed⟩ := hdestroyed t ht
    · exact hbefore.2 hcurrent
    · rw [hclosed] at hbefore
      exact hbefore.1.closeSocket.1 rfl
  · exact hnew t ht hbefore.1

/-- Where no transport was made there is none to destroy. -/
theorem not_liveIn_of_length {transports : List TransportState} {n t : ℕ}
    (hlength : transports.length = n) (ht : n ≤ t) : ¬ LiveIn transports t := by
  subst hlength
  simp [LiveIn, List.getElem?_eq_none ht]

end Handlers

/-! ## Handlers -/

section Turns

variable {cfg : Config} {w w' : World}

/-- **The result of a TCP connect.** The client recovers from where its transport was destroyed, or
had become the current one. -/
theorem onTcpConnect_recovers (hcfg : cfg.enableReconnect = true) {t : ℕ} {req : ConnReq}
    {status : ℤ} (hflag : w.reconnecting = req.retries)
    (hfails : w.failures < (onTcpConnect cfg t req status w).failures)
    (hrun : (onTcpConnect cfg t req status w).halted = none)
    (hopen : (onTcpConnect cfg t req status w).closings = w.closings) :
    ∃ line : Lifeline, (onTcpConnect cfg t req status w).lifeline = line.recovered ∧
      line.reconnects = w.reconnects ∧ line.reconnectClosed = w.reconnectClosed ∧
      line.transports.length = w.transports.length ∧
      (line.transport = some t ∨ ∃ transports, line.transports = closeSocket t transports) := by
  rw [onTcpConnect] at hfails hrun hopen ⊢
  by_cases hst : w.state ≠ .connecting
  · -- the attempt is stale, and no failure is reported
    rw [if_pos hst, failures_connectCb] at hfails
    exact absurd hfails (lt_irrefl _)
  rw [if_neg hst] at hfails hrun hopen ⊢
  by_cases hstatus : status = -1
  · -- the connect failed: its transport never becomes the client's
    rw [if_pos hstatus] at hrun hopen ⊢
    have hsame : (transportDestroy t w).closings = w.closings := rfl
    rw [← hsame] at hopen
    have hline := connectError_recovers (w := transportDestroy t w) hcfg hflag hrun hopen
    exact ⟨_, hline, rfl, rfl, length_closeSocket t w.transports, .inr ⟨w.transports, rfl⟩⟩
  rw [if_neg hstatus] at hfails hrun hopen ⊢
  dsimp only at hfails hrun hopen ⊢
  by_cases hread : ¬ uvReadStart t { w with transport := some t }
  · -- from here on it is the client's, and the stop destroys it
    rw [if_pos hread] at hrun hopen ⊢
    have hsame : ({ w with transport := some t } : World).closings = w.closings := rfl
    rw [← hsame] at hopen
    have hline := connectError_recovers (w := { w with transport := some t }) hcfg hflag hrun hopen
    exact ⟨_, hline, rfl, rfl, rfl, .inl rfl⟩
  rw [if_neg hread] at hfails hrun hopen ⊢
  obtain ⟨hline, hquiet, hcloses⟩ := handshakeReq_keeps cfg
    (transportStart t { w with transport := some t, state := .connected })
  generalize handshakeReq cfg (transportStart t { w with transport := some t, state := .connected }) = r
    at hline hquiet hcloses hfails hrun hopen ⊢
  obtain ⟨w₁, _ | _⟩ := r
  · -- the handshake request cannot be written
    dsimp only at hline hquiet hcloses hfails hrun hopen ⊢
    have hrun₁ : w₁.halted = none := World.running_of_andThen hrun
    rw [World.andThen_of_none hrun₁] at hrun hopen ⊢
    have hflag₁ : w₁.reconnecting = req.retries := (congrArg Lifeline.reconnecting hline).trans hflag
    have hrec := connectError_recovers hcfg hflag₁ hrun (hopen.trans hcloses.symm)
    have hlength : (transportStart t
        { w with transport := some t, state := .connected }).transports.length =
          w.transports.length := by
      rw [transportStart]
      dsimp only
      split
      · exact List.length_set
      · rfl
    exact ⟨_, hrec, congrArg Lifeline.reconnects hline, congrArg Lifeline.reconnectClosed hline,
      (congrArg (fun line => line.transports.length) hline).trans hlength,
      .inl (congrArg Lifeline.transport hline)⟩
  · -- the request is on its way
    exact absurd hfails (by rw [hquiet]; exact lt_irrefl _)

/-- **The write of the handshake request** fails on a transport that works. -/
theorem handshakeReqCb_recovers (hcfg : cfg.enableReconnect = true) {t : ℕ} {status : ℤ}
    (hflag : w.reconnecting = w.connReq.any ConnReq.retries)
    (hfails : w.failures < (handshakeReqCb cfg t status w).failures)
    (hrun : (handshakeReqCb cfg t status w).halted = none)
    (hopen : (handshakeReqCb cfg t status w).closings = w.closings) :
    w.working t = true ∧ (handshakeReqCb cfg t status w).lifeline = w.lifeline.recovered := by
  rw [handshakeReqCb] at hfails hrun hopen ⊢
  by_cases hwork : ¬ w.working t
  · -- the connection was closed meanwhile, and the callback leaves the client alone
    rw [if_pos hwork] at hfails
    exact absurd hfails (lt_irrefl _)
  rw [if_neg hwork] at hfails hrun hopen ⊢
  by_cases hstatus : status = -1
  · rw [if_pos hstatus] at hrun hopen ⊢
    subst hstatus
    exact ⟨not_not.mp hwork, finishConnect_recovers hcfg (by decide) hflag hrun hopen⟩
  · rw [if_neg hstatus] at hfails
    exact absurd hfails (lt_irrefl _)

/-- **The write of the ack** likewise. -/
theorem handshakeAckCb_recovers (hcfg : cfg.enableReconnect = true) {t : ℕ} {status : ℤ}
    (hflag : w.reconnecting = w.connReq.any ConnReq.retries)
    (hfails : w.failures < (handshakeAckCb cfg t status w).failures)
    (hrun : (handshakeAckCb cfg t status w).halted = none)
    (hopen : (handshakeAckCb cfg t status w).closings = w.closings) :
    w.working t = true ∧ (handshakeAckCb cfg t status w).lifeline = w.lifeline.recovered := by
  rw [handshakeAckCb] at hfails hrun hopen ⊢
  by_cases hwork : ¬ w.working t
  · rw [if_pos hwork] at hfails
    exact absurd hfails (lt_irrefl _)
  rw [if_neg hwork] at hfails hrun hopen ⊢
  dsimp only at hfails hrun hopen ⊢
  by_cases hstatus : status = -1
  · rw [if_pos hstatus] at hrun hopen ⊢
    subst hstatus
    exact ⟨not_not.mp hwork, finishConnect_recovers hcfg (by decide) hflag hrun hopen⟩
  · have hacked : (({ w with state := .working } : World).note (.acked w.state)).failures =
        w.failures := failures_event rfl rfl
    rw [if_neg hstatus, failures_finishConnect, hacked] at hfails
    exact absurd hfails (lt_irrefl _)

/-- **The completion of any write.** -/
theorem writeCb_recovers (hcfg : cfg.enableReconnect = true) {write : Write} {status : ℤ}
    (hflag : w.reconnecting = w.connReq.any ConnReq.retries)
    (hfails : w.failures < (writeCb cfg write status w).failures)
    (hrun : (writeCb cfg write status w).halted = none)
    (hopen : (writeCb cfg write status w).closings = w.closings) :
    w.working write.transport = true ∧
      (writeCb cfg write status w).lifeline = w.lifeline.recovered := by
  rw [writeCb] at hfails hrun hopen ⊢
  have hsame : (w.note (.writeDone write status (w.working write.context)
      (write.listed w))).failures = w.failures := failures_event rfl rfl
  generalize hw₁ : w.note (.writeDone write status (w.working write.context) (write.listed w)) = w₁
    at hsame hfails hrun hopen ⊢
  have hnoted : w₁.closings = w.closings ∧ w₁.lifeline = w.lifeline ∧
      w₁.reconnecting = w₁.connReq.any ConnReq.retries ∧
      (w₁.working write.transport = true → w.working write.transport = true) := by
    subst hw₁
    exact ⟨rfl, rfl, hflag, id⟩
  obtain ⟨hcloses, hline, hflag₁, hwork⟩ := hnoted
  rw [← hsame] at hfails
  rw [← hcloses] at hopen
  rw [← hline]
  cases hcb : write.cb with
  | handshakeReq =>
    rw [hcb] at hfails hrun hopen
    have hrec := handshakeReqCb_recovers hcfg hflag₁ hfails hrun hopen
    exact ⟨hwork hrec.1, hrec.2⟩
  | handshakeAck =>
    rw [hcb] at hfails hrun hopen
    have hrec := handshakeAckCb_recovers hcfg hflag₁ hfails hrun hopen
    exact ⟨hwork hrec.1, hrec.2⟩
  | heartbeatReq =>
    rw [hcb] at hfails
    exact absurd hfails (by rw [failures_heartbeatReqCb]; exact lt_irrefl _)
  | request req =>
    rw [hcb] at hfails
    exact absurd hfails (by rw [failures_onRequest]; exact lt_irrefl _)
  | notify req =>
    rw [hcb] at hfails
    exact absurd hfails (by rw [failures_onNotify]; exact lt_irrefl _)

/-- **A read.** The error takes the flag back; a package that is refused does not. -/
theorem tpOnTcpRead_recovers (hcfg : cfg.enableReconnect = true) {t : ℕ} {ms : List Bool}
    {nread : Nread} (hflag : (Label.tcpRead t ms nread).clears = true ∨ w.reconnecting = false)
    (hfails : w.failures < (tpOnTcpRead cfg t ms nread w).failures)
    (hrun : (tpOnTcpRead cfg t ms nread w).halted = none)
    (hopen : (tpOnTcpRead cfg t ms nread w).closings = w.closings) :
    w.working t = true ∧ (tpOnTcpRead cfg t ms nread w).lifeline = w.lifeline.recovered := by
  unfold tpOnTcpRead at hfails hrun hopen ⊢
  by_cases hwork : ¬ w.working t
  · rw [if_pos hwork] at hfails
    exact absurd hfails (lt_irrefl _)
  rw [if_neg hwork] at hfails hrun hopen ⊢
  refine ⟨not_not.mp hwork, ?_⟩
  cases nread with
  | error =>
    -- the callback clears `reconnecting` before it stops the client
    exact clientStop_lifeline hcfg rfl hrun hopen
  | nothing => exact absurd hfails (lt_irrefl _)
  | bytes data =>
    have hno : w.reconnecting = false := hflag.resolve_left (by simp [Label.clears])
    have hread : Copes w (clientOnTcpRead cfg ms data
        ({ w with reading := some t }.note (.read t))) :=
      (copes_clientOnTcpRead hcfg ms data _).after (e := .read t) rfl rfl rfl rfl
    exact hread.lifeline hno hrun hopen hfails

theorem copes_heartbeatCb (hcfg : cfg.enableReconnect = true) (w : World) :
    Copes w (heartbeatCb cfg w) := by
  obtain ⟨hcases, -⟩ := heartbeatReq_cases
    { w with heartbeatTimer := w.heartbeatTimer.map uvTimerStop }
  rw [heartbeatCb]
  generalize heartbeatReq { w with heartbeatTimer := w.heartbeatTimer.map uvTimerStop } = r
    at hcases ⊢
  cases hcases with
  | failed supply =>
    have hfailed : Copes w { w with
        heartbeatTimer := w.heartbeatTimer.map uvTimerStop, supply := supply } := .quiet rfl rfl rfl
    exact hfailed.andThen (copes_failWith hcfg _)
  | crashed supply =>
    have hcrashed : Copes w (({ w with
        heartbeatTimer := w.heartbeatTimer.map uvTimerStop, supply := supply } : World).halt .crash) :=
      (Copes.halt _ _).behind rfl rfl rfl
    exact hcrashed.andThen (copes_failWith hcfg _)
  | queued => exact .event rfl rfl rfl rfl

theorem copes_timeoutCb (hcfg : cfg.enableReconnect = true) (w : World) :
    Copes w (timeoutCb cfg w) := by
  have hemit : Copes w (emitEvent cfg "timeout"
      ({ w with timeoutTimer := w.timeoutTimer.map uvTimerStop }.note .timedOut)) :=
    (copes_emitEvent "timeout" _).after (e := .timedOut) rfl rfl rfl rfl
  exact hemit.andThen (copes_failWith hcfg _)

theorem copes_handshakeTimeoutCb (hcfg : cfg.enableReconnect = true) (w : World) :
    Copes w (handshakeTimeoutCb cfg w) := by
  have hemit : Copes w (emitEvent cfg "timeout"
      { w with handshakeTimer := w.handshakeTimer.map uvTimerStop }) :=
    (copes_emitEvent "timeout" _).behind rfl rfl rfl
  exact hemit.andThen (copes_failWith hcfg _)

/-- A handler for the current transport. -/
theorem Recovers.of_own {l : Label} (hline : w'.lifeline = w.lifeline.recovered)
    (hclosed : w.reconnectClosed = false)
    (hconcerns : ∀ t, l.concerns w = some t → w.transport = some t) : Recovers w l w' :=
  .of_lifeline hline rfl hclosed (fun _ ht => not_liveIn_of_length rfl ht)
    fun t ht => .inl (hconcerns t ht)

/-- **The reconnect timer.** An attempt that fails takes the flag back, and so the client recovers
whatever the flag was. -/
theorem clientReconnectTimerCb_recovers (hcfg : cfg.enableReconnect = true)
    (hclosed : w.reconnectClosed = false)
    (hfails : w.failures < (clientReconnectTimerCb cfg w).failures)
    (hrun : (clientReconnectTimerCb cfg w).halted = none)
    (hopen : (clientReconnectTimerCb cfg w).closings = w.closings) :
    Recovers w .reconnectTimer (clientReconnectTimerCb cfg w) := by
  obtain ⟨hquiet, hcounted, hkeeps⟩ := reconnectAttempt_keeps w
  rw [clientReconnectTimerCb] at hfails hrun hopen ⊢
  generalize reconnectAttempt w = r at hquiet hcounted hkeeps hfails hrun hopen ⊢
  obtain ⟨w₁, _ | _⟩ := r
  · obtain ⟨hcloses, htransport, hclosed₁, hnew⟩ := hkeeps rfl
    have hrun₁ : w₁.halted = none := World.running_of_andThen hrun
    dsimp only at hrun hopen ⊢
    rw [World.andThen_of_none hrun₁] at hrun hopen ⊢
    have hcopes : Copes { w₁ with reconnecting := false }
        (failWith cfg .reconnect { w₁ with reconnecting := false }) := copes_failWith hcfg _ _
    have hmore : ({ w₁ with reconnecting := false } : World).failures <
        (failWith cfg .reconnect { w₁ with reconnecting := false }).failures := by
      rw [failures_failWith]
      exact Nat.lt_succ_self _
    have hline := hcopes.lifeline rfl hrun (hopen.trans hcloses.symm) hmore
    exact .of_lifeline hline hcounted (hclosed₁.trans hclosed) hnew
      fun t ht => .inl (htransport.trans ht)
  · exact absurd hfails (by rw [hquiet]; exact lt_irrefl _)

/-- **Every handler of the loop.** -/
theorem recovers_loopStep {supply : List Bool} {l : Label} (hcfg : cfg.enableReconnect = true)
    (hcurrent : ∀ t, w.working t = true → w.transport = some t)
    (h : loopStep cfg { w with supply := supply } l = some w') (hfails : w.failures < w'.failures)
    (hrun : w'.halted = none) (hopen : w'.closings = w.closings) (hclosed : w.reconnectClosed = false)
    (hflag : Recoverable w l) : Recovers w l w' := by
  have hquiet : w'.failures = w.failures → Recovers w l w' := fun hsame => absurd hsame hfails.ne'
  cases l with
  | tcpConnect i ok =>
    simp only [loopStep] at h
    split at h
    · next t req hi =>
      simp only [Option.ite_none_right_eq_some, Option.some.injEq] at h
      obtain ⟨-, rfl⟩ := h
      have hi' : w.connects[i]? = some (t, req) := hi
      have hflag' : w.reconnecting = req.retries := by
        simpa [Recoverable, Label.clears, Label.answers, hi'] using hflag
      obtain ⟨line, hline, hcounted, hclosed', hlength, hdestroyed⟩ :=
        onTcpConnect_recovers (w := { w with supply := supply, connects := w.connects.eraseIdx i })
          hcfg hflag' hfails hrun hopen
      refine .of_lifeline hline hcounted (hclosed'.trans hclosed)
        (fun _ ht => not_liveIn_of_length hlength ht) fun t' ht' => ?_
      rw [Label.concerns, hi'] at ht'
      obtain rfl : t = t' := Option.some.inj ht'
      exact hdestroyed
    · exact absurd h (by simp)
  | writeDone i ok =>
    simp only [loopStep] at h
    split at h
    · next write hi =>
      simp only [Option.ite_none_right_eq_some, Option.some.injEq] at h
      obtain ⟨-, rfl⟩ := h
      have hi' : w.writes[i]? = some write := hi
      have hflag' : w.reconnecting = w.connReq.any ConnReq.retries := by
        simpa [Recoverable, Label.clears, Label.answers] using hflag
      obtain ⟨hwork, hline⟩ :=
        writeCb_recovers (w := { w with supply := supply, writes := w.writes.eraseIdx i })
          hcfg hflag' hfails hrun hopen
      refine .of_own hline hclosed fun t ht => ?_
      rw [Label.concerns, hi'] at ht
      obtain rfl : write.transport = t := Option.some.inj ht
      exact hcurrent _ hwork
    · exact absurd h (by simp)
  | asyncWrite i =>
    simp only [loopStep] at h
    split at h
    · obtain rfl := Option.some.inj h
      exact hquiet (failures_asyncWriteCb _ _)
    · exact absurd h (by simp)
  | tcpRead t ms nread =>
    obtain rfl := Option.some.inj h
    have hflag' : (Label.tcpRead t ms nread).clears = true ∨ w.reconnecting = false := hflag
    obtain ⟨hwork, hline⟩ :=
      tpOnTcpRead_recovers (w := { w with supply := supply }) hcfg hflag' hfails hrun hopen
    refine .of_own hline hclosed fun t' ht' => ?_
    obtain rfl : t = t' := Option.some.inj ht'
    exact hcurrent t hwork
  | heartbeatTimer =>
    simp only [loopStep, Option.ite_none_right_eq_some, Option.some.injEq] at h
    obtain ⟨-, rfl⟩ := h
    have hno : w.reconnecting = false := hflag.resolve_left (by simp [Label.clears])
    have hcopes : Copes w (heartbeatCb cfg { w with
        supply := supply, heartbeatTimer := w.heartbeatTimer.map uvTimerFired }) :=
      (copes_heartbeatCb hcfg _).behind rfl rfl rfl
    exact .of_own (hcopes.lifeline hno hrun hopen hfails) hclosed fun _ ht => ht
  | timeoutTimer =>
    simp only [loopStep, Option.ite_none_right_eq_some, Option.some.injEq] at h
    obtain ⟨-, rfl⟩ := h
    have hno : w.reconnecting = false := hflag.resolve_left (by simp [Label.clears])
    have hcopes : Copes w (timeoutCb cfg { w with
        supply := supply, timeoutTimer := w.timeoutTimer.map uvTimerFired }) :=
      (copes_timeoutCb hcfg _).behind rfl rfl rfl
    exact .of_own (hcopes.lifeline hno hrun hopen hfails) hclosed fun _ ht => ht
  | handshakeTimer =>
    simp only [loopStep, Option.ite_none_right_eq_some, Option.some.injEq] at h
    obtain ⟨-, rfl⟩ := h
    have hno : w.reconnecting = false := hflag.resolve_left (by simp [Label.clears])
    have hcopes : Copes w (handshakeTimeoutCb cfg { w with
        supply := supply, handshakeTimer := w.handshakeTimer.map uvTimerFired }) :=
      (copes_handshakeTimeoutCb hcfg _).behind rfl rfl rfl
    exact .of_own (hcopes.lifeline hno hrun hopen hfails) hclosed fun _ ht => ht
  | reconnectTimer =>
    simp only [loopStep, Option.ite_none_right_eq_some, Option.some.injEq] at h
    obtain ⟨-, rfl⟩ := h
    have hrec := clientReconnectTimerCb_recovers (w := { w with
      supply := supply, reconnectTimer := uvTimerFired w.reconnectTimer }) hcfg hclosed hfails hrun hopen
    exact ⟨hrec.transport, hrec.destroyed, hrec.counted, hrec.armed⟩
  | closeAsync =>
    simp only [loopStep, Option.ite_none_right_eq_some, Option.some.injEq] at h
    obtain ⟨-, rfl⟩ := h
    refine hquiet ((failures_andThen (fun v => ?_) _).trans (failures_clientStop _))
    exact failures_event rfl rfl
  | loopEnd =>
    simp only [loopStep, Option.ite_none_right_eq_some, Option.some.injEq] at h
    obtain ⟨-, rfl⟩ := h
    exact hquiet rfl
  | _ => exact absurd h (by simp [loopStep])

/-! ## The user's thread -/

theorem failures_userActWith {act : UserAct} (w : World) :
    (userAct cfg w act).failures = w.failures :=
  failures_adds (adds_userActWith adds_clientReconnect w act)

theorem failures_disconnectSend (w : World) : (disconnectSend w).failures = w.failures := by
  rw [disconnectSend]
  split
  · exact failures_event (e := .closeSend true) rfl rfl
  · exact failures_event (e := .closeSend false) rfl rfl

theorem failures_clientConnect (call : ConnectCall) (w : World) :
    (clientConnect call w).failures = w.failures := by
  have hcases := clientConnect_cases call w
  generalize clientConnect call w = w' at hcases ⊢
  cases hcases with
  | failed => rfl
  | refused host supply w' hconn =>
    have hsame := failures_pcConnect call.cb { w with host := host, supply := supply }
    rw [hconn] at hsame
    exact hsame
  | started host supply w' hconn =>
    have hsame := failures_pcConnect call.cb { w with host := host, supply := supply }
    rw [hconn] at hsame
    exact hsame

theorem failures_clientJoin (h : clientJoin w = some w') : w'.failures = w.failures := by
  rw [clientJoin] at h
  split at h
  · obtain rfl := Option.some.inj h
    rfl
  · obtain rfl := Option.some.inj h
    exact failures_event (e := .joined) rfl rfl
  · obtain rfl := Option.some.inj h
    exact failures_event (e := .joined) rfl rfl
  · exact absurd h (by simp)

theorem failures_clientFree (w : World) : (clientFree cfg w).failures = w.failures := by
  have hclear : (requestsClear (releaseRequest cfg) w.requests.length w).failures = w.failures := by
    refine requestsClear_preserves (P := fun v => v.failures = w.failures) ?_ _ _ rfl
    intro v key req before after hsame _
    exact (failures_callback rfl _).trans hsame
  rw [clientFree, World.andThen]
  split
  · exact hclear
  · exact hclear

theorem failures_clientDestroy (h : clientDestroy cfg w = some w') : w'.failures = w.failures := by
  rw [clientDestroy] at h
  split at h
  · obtain rfl := Option.some.inj h
    rfl
  · obtain rfl := Option.some.inj h
    rfl
  · obtain rfl := Option.some.inj h
    exact failures_event (e := .disconnect w.resetting) rfl rfl
  · obtain rfl := Option.some.inj h
    exact failures_disconnectSend w
  · obtain ⟨v, hjoin, rfl⟩ := Option.map_eq_some_iff.mp h
    have hsame := failures_clientJoin hjoin
    exact hsame
  · obtain rfl := Option.some.inj h
    exact failures_clientFree w
  · exact absurd h (by simp)

/-- **The user's thread** reports no failure. -/
theorem failures_userStep {l : Label} (h : userStep cfg w l = some w') : w'.failures = w.failures := by
  cases l with
  | connect call =>
    simp only [userStep, Option.ite_none_right_eq_some, Option.some.injEq] at h
    obtain ⟨-, rfl⟩ := h
    exact failures_clientConnect call w
  | condWait | connectReturn =>
    simp only [userStep, Option.ite_none_right_eq_some, Option.some.injEq] at h
    obtain ⟨-, rfl⟩ := h
    rfl
  | call act =>
    cases act with
    | disconnect => exact absurd h (by simp [userStep])
    | _ =>
      simp only [userStep, Option.ite_none_right_eq_some, Option.some.injEq] at h
      obtain ⟨-, rfl⟩ := h
      exact failures_userActWith w
  | disconnectSet =>
    simp only [userStep, Option.ite_none_right_eq_some, Option.some.injEq] at h
    obtain ⟨-, rfl⟩ := h
    exact failures_event (e := .disconnect w.resetting) rfl rfl
  | disconnectSend =>
    simp only [userStep, Option.ite_none_right_eq_some, Option.some.injEq] at h
    obtain ⟨-, rfl⟩ := h
    exact failures_disconnectSend w
  | join =>
    simp only [userStep, Option.ite_none_right_eq_some] at h
    exact failures_clientJoin h.2
  | destroy => exact failures_clientDestroy h
  | _ => exact absurd h (by simp [userStep])

/-- The tail of the worker reports none either. -/
theorem failures_workerTail (h : workerTail cfg w = some w') : w'.failures = w.failures := by
  rw [workerTail] at h
  split at h
  · obtain rfl := Option.some.inj h
    exact failures_callback rfl w
  · obtain rfl := Option.some.inj h
    exact failures_condBroadcast w
  · exact absurd h (by simp)

/-- **A failure is recovered from.** In every run of a client with `enable_reconnect`, when a
handler that reports a failure returns and leaves the client neither `DISCONNECTING` nor
`CLOSED`, the transport is destroyed, the failure counted once and the reconnect timer armed. -/
theorem failure_recovered (hcfg : cfg.enableReconnect = true) {l : List Bool × Label}
    (h : (clientLts cfg).Reach FailsOpen w) (hstep : step cfg l.1 l.2 w = some w')
    (hok : FailsOpen w l w') (hfails : Fails w w') : Recovers w l.2 w' := by
  obtain ⟨hclosed, hopen, hflag⟩ := hok hfails
  obtain ⟨hmore, hrun, -⟩ := hfails
  have hcurrent := (reach_established h).1.current
  have hquiet : w'.failures = w.failures → Recovers w l.2 w' := fun hsame => absurd hsame hmore.ne'
  rw [step] at hstep
  split at hstep
  · exact absurd hstep (by simp)
  · dsimp only at hstep
    split at hstep
    · next huser =>
      obtain rfl := Option.some.inj hstep
      have hsame := failures_userStep huser
      exact hquiet hsame
    · split at hstep
      · have hsame := failures_workerTail hstep
        exact hquiet hsame
      · split at hstep
        · exact recovers_loopStep hcfg hcurrent hstep hmore hrun hopen hclosed hflag
        · exact absurd hstep (by simp)

end Turns

/-- A client that becomes `WORKING`, loses its connection and tries again. -/
def retryRun : List (List Bool × Label) :=
  plainStart ++ [([], .tcpRead 0 [] .error), ([], .reconnectTimer)]

/-- **The attempt fails**, and there will be another. -/
theorem failure_recovered_retryRun :
    ∃ w w', runSteps (plainConfig true) retryRun plainInit = some w ∧
      step (plainConfig true) [] (.tcpConnect 0 false) w = some w' ∧ Fails w w' ∧
      Recovers w (.tcpConnect 0 false) w' := by
  have hrun : ∃ w w', runSteps (plainConfig true) retryRun plainInit = some w ∧
      step (plainConfig true) [] (.tcpConnect 0 false) w = some w' ∧ Fails w w' ∧
      FailsOpen w ([], .tcpConnect 0 false) w' := ⟨_, _, rfl, rfl, by decide, by decide⟩
  obtain ⟨w, w', hrun, hstep, hfails, hopen⟩ := hrun
  have hok : RunMeets (plainConfig true) FailsOpen retryRun plainInit := by decide +kernel
  have hreach := reach_of_runSteps retryRun reach_plainInit hok hrun
  have hrec := failure_recovered (l := ([], .tcpConnect 0 false)) rfl hreach hstep hopen hfails
  exact ⟨w, w', hrun, hstep, hfails, hrec⟩

/-- The server takes the new connection, and does not answer. -/
def stalledRun : List (List Bool × Label) := retryRun ++ [([], .tcpConnect 0 true)]

/-- **The handshake times out**, and the client keeps waiting on the connection. -/
theorem not_recovers_stalledRun :
    ∃ w w', runSteps (plainConfig true) stalledRun plainInit = some w ∧
      Reachable (plainConfig true) w ∧ step (plainConfig true) [] .handshakeTimer w = some w' ∧
      Fails w w' ∧ w'.transports = [.closed, .working] ∧ ¬ Recovers w .handshakeTimer w' := by
  have hrun : ∃ w w', runSteps (plainConfig true) stalledRun plainInit = some w ∧
      step (plainConfig true) [] .handshakeTimer w = some w' ∧ Fails w w' ∧
      w'.transports = [.closed, .working] ∧ w'.transport = some 1 :=
    ⟨_, _, rfl, rfl, by decide, rfl, rfl⟩
  obtain ⟨w, w', hrun, hstep, hfails, htransports, htransport⟩ := hrun
  refine ⟨w, w', hrun, reachable_of_run hrun, hstep, hfails, htransports, fun hrec => ?_⟩
  rw [hrec.transport] at htransport
  exact absurd htransport (by simp)

end Libpomelo
