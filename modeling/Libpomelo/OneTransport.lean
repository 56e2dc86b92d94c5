import Libpomelo.Established

/-!
# One connection at a time

`pc_connect` creates a transport and hands it to libuv. Until the TCP connect is through, only
the `uv_connect_t` knows it: `client->transport` is `NULL`, so whoever ends the client in
between cannot see the transport, let alone close it. And when the result comes, the handler
recognises a stale one by the state alone, which a newer attempt has set back to `CONNECTING`.

A transport whose `uv_tcp_connect` fails is still `INITED` when it is destroyed, and of such a
one `pc_transport_destroy` frees the block and leaves the socket.

As long as `uv_tcp_connect` does not fail and nobody disconnects or stops the client while a
connect is under way (`Unhurried`; a `pc_client_stop` that is ignored because the client is
`reconnecting` does no harm), an attempt is either in the air (`World.Launched`) or over
(`World.Landed`), and then at most one transport is open, it is the newest one, and none is left
when the client is closed.
-/

namespace Libpomelo

/-- The transport was created and is not `CLOSED`. One whose `uv_tcp_connect` failed never will be:
its block is freed, and nobody closes its socket. -/
def World.Open (w : World) (t : ℕ) : Prop :=
  ∃ state, w.transports[t]? = some state ∧ state ≠ .closed

/-- The event is a call that ends a client: `pc_client_disconnect`, or a `pc_client_stop` that
is not ignored. -/
def Event.interrupts (cfg : Config) : Event → Bool
  | .disconnect _ => true
  | .stop state reconnecting =>
    !(cfg.enableReconnect && state ≠ .disconnecting && reconnecting)
  | _ => false

/-- The label delivers the result of a TCP connect. -/
def Label.lands : Label → Bool
  | .tcpConnect _ _ => true
  | _ => false

/-- How far `pc_connect` gets with the client that this leaves, if it is called at all. -/
def attemptStage (prepared : World × Bool) : Option ConnectStage :=
  if prepared.2 ∧ prepared.1.state = .inited then some (connectStages prepared.1.supply).1 else none

/-- How far the connection attempt gets that the user or the reconnect timer makes. -/
def World.connectStage (w : World) : Label → Option ConnectStage
  | .connect call => attemptStage (connectPrepare call w)
  | .reconnectTimer => attemptStage (reconnectPrepare w)
  | _ => none

/-- `uv_tcp_connect` does not fail. And while a TCP connect is under way nobody ends the client;
the handler of its result may. -/
def Unhurried (cfg : Config) (w : World) (l : List Bool × Label) (w' : World) : Prop :=
  ({ w with supply := l.1 } : World).connectStage l.2 ≠ some .notConnected ∧
    (w.connects.isEmpty = false → l.2.lands = false →
      w'.trace.countP (Event.interrupts cfg) = w.trace.countP (Event.interrupts cfg))

instance (cfg : Config) (w : World) (l : List Bool × Label) (w' : World) :
    Decidable (Unhurried cfg w l w') :=
  inferInstanceAs (Decidable (_ ∧ (_ → _)))

/-- **One connection at a time.** The transports are listed in the order of their creation. -/
structure World.OneTransport (w : World) : Prop where
  /-- at most one is open -/
  one : ∀ t t', w.Open t → w.Open t' → t = t'
  /-- the current one belongs to the latest `pc_connect` -/
  latest : ∀ t, w.transport = some t → t + 1 = w.transports.length
  /-- none is left behind -/
  closed : w.state = .closed → ∀ t, ¬ w.Open t

/-! ## The phases of an attempt -/

/-- No TCP connect is under way. -/
structure World.Landed (w : World) : Prop where
  connects : w.connects = []
  none_connecting : ∀ t : ℕ, w.transports[t]? ≠ some .connecting
  none_inited : ∀ t : ℕ, w.transports[t]? ≠ some .inited
  latest : ∀ t, w.transport = some t → t + 1 = w.transports.length

/-- The TCP connect of this transport is under way, and nothing else is. -/
structure World.Launched (t : ℕ) (w : World) : Prop where
  connects : ∃ req, w.connects = [(t, req)]
  state : w.state = .connecting
  transport : w.transport = none
  resetting : w.resetting = false
  only : ∀ t' : ℕ, w.transports[t']? = some .connecting ↔ t' = t
  none_inited : ∀ t' : ℕ, w.transports[t']? ≠ some .inited
  latest : t + 1 = w.transports.length

section Phases

variable {cfg : Config} {begins : Bool} {t : ℕ} {w w' : World}

/-- Only the last transport is open, and only if it works. -/
theorem World.Landed.oneTransport (h : w.Landed) (hlife : w.Lifecycle) : w.OneTransport := by
  have hworks : ∀ t, w.Open t → w.transports[t]? = some .working := by
    rintro t ⟨state, hstate, hopen⟩
    cases state with
    | inited => exact absurd hstate (h.none_inited t)
    | connecting => exact absurd hstate (h.none_connecting t)
    | working => exact hstate
    | closed => exact absurd rfl hopen
  have hcurrent : ∀ t, w.Open t → w.transport = some t :=
    fun t ht => hlife.current t (decide_eq_true (hworks t ht))
  refine ⟨?_, h.latest, ?_⟩
  · intro t t' ht ht'
    exact Option.some.inj ((hcurrent t ht).symm.trans (hcurrent t' ht'))
  · intro hst t ht
    have hidle := hlife.idle (.inr (.inr hst)) t
    exact absurd (hworks t ht) (of_decide_eq_false hidle)

theorem World.Launched.oneTransport (h : w.Launched t) (hlife : w.Lifecycle) : w.OneTransport := by
  have honly : ∀ t', w.Open t' → t' = t := by
    rintro t' ⟨state, hstate, hopen⟩
    cases state with
    | inited => exact absurd hstate (h.none_inited t')
    | connecting => exact (h.only t').1 hstate
    | working =>
      have hidle := hlife.idle (.inr (.inl h.state)) t'
      exact absurd hstate (of_decide_eq_false hidle)
    | closed => exact absurd rfl hopen
  refine ⟨?_, ?_, ?_⟩
  · intro t₁ t₂ ht₁ ht₂
    exact (honly t₁ ht₁).trans (honly t₂ ht₂).symm
  · intro t' ht'
    rw [h.transport] at ht'
    exact absurd ht' (by simp)
  · intro hst
    rw [h.state] at hst
    exact absurd hst (by decide)

theorem World.Landed.of_eq (h : w.Landed) (hconnects : w'.connects = w.connects)
    (htransports : w'.transports = w.transports) (htransport : w'.transport = w.transport) :
    w'.Landed := by
  refine ⟨hconnects.trans h.connects, ?_, ?_, ?_⟩
  · rw [htransports]
    exact h.none_connecting
  · rw [htransports]
    exact h.none_inited
  · rw [htransport, htransports]
    exact h.latest

theorem World.Launched.of_eq (h : w.Launched t) (hconnects : w'.connects = w.connects)
    (hstate : w'.state = w.state) (htransport : w'.transport = w.transport)
    (hreset : w'.resetting = w.resetting) (htransports : w'.transports = w.transports) :
    w'.Launched t := by
  refine ⟨?_, hstate.trans h.state, htransport.trans h.transport, hreset.trans h.resetting, ?_, ?_, ?_⟩
  · rw [hconnects]
    exact h.connects
  · rw [htransports]
    exact h.only
  · rw [htransports]
    exact h.none_inited
  · rw [htransports]
    exact h.latest

/-! ## Sockets -/

/-- Closing a socket opens none, and leaves only an `INITED` transport as it was. -/
theorem open_closeSocket {transports : List TransportState} {t' : ℕ} {state : TransportState}
    (hstate : state ≠ .closed) (h : (closeSocket t transports)[t']? = some state) :
    transports[t']? = some state ∧ (t' = t → state = .inited) := by
  have hset : (transports.set t .closed)[t']? = some state →
      transports[t']? = some state ∧ (t' = t → state = .inited) := by
    intro hset
    rw [List.getElem?_set] at hset
    split at hset
    · split at hset
      · exact absurd (Option.some.inj hset).symm hstate
      · exact absurd hset (by simp)
    · next hne => exact ⟨hset, fun heq => absurd heq.symm hne⟩
  rw [closeSocket] at h
  split at h
  · exact hset h
  · exact hset h
  · next hconnecting hwork =>
    refine ⟨h, ?_⟩
    rintro rfl
    cases state with
    | inited => rfl
    | connecting => exact absurd h hconnecting
    | working => exact absurd h hwork
    | closed => exact absurd rfl hstate

theorem World.Landed.drop (h : w.Landed) (hconnects : w'.connects = w.connects)
    (htransports : w'.transports = (dropTransport w).transports) (htransport : w'.transport = none) :
    w'.Landed := by
  have hbefore : ∀ (t : ℕ) (state : TransportState), state ≠ .closed →
      w'.transports[t]? = some state → w.transports[t]? = some state := by
    intro t state hstate hafter
    rw [htransports, dropTransport] at hafter
    dsimp only at hafter
    split at hafter
    · exact (open_closeSocket hstate hafter).1
    · exact hafter
  refine ⟨hconnects.trans h.connects, ?_, ?_, ?_⟩
  · exact fun t hconnecting => h.none_connecting t (hbefore t _ (by decide) hconnecting)
  · exact fun t hinited => h.none_inited t (hbefore t _ (by decide) hinited)
  · intro t ht
    rw [htransport] at ht
    exact absurd ht (by simp)

/-! ## Moves -/

theorem Move.landed (h : Move cfg begins w w') (hw : w.Landed) : w'.Landed := by
  cases h with
  | inert w' hin _ =>
    rw [hin.eq]
    exact hw.of_eq rfl rfl rfl
  | shook w' _ _ hin _ _ _ =>
    rw [hin.eq]
    exact hw.of_eq rfl rfl rfl
  | beginReset | close => exact hw.drop rfl rfl rfl
  | _ => exact hw.of_eq rfl rfl rfl

theorem enduring_landed : Enduring cfg World.Landed where
  move _ _ _ hw hm := hm.landed hw
  taken _ hw := hw.of_eq rfl rfl rfl
  calledBack _ _ _ hw := hw.of_eq rfl rfl rfl

/-- A call that ends the client shows. -/
theorem countP_interrupts_ne {e : Event} {trace : List Event} (he : e.interrupts cfg = true) :
    (e :: trace).countP (Event.interrupts cfg) ≠ trace.countP (Event.interrupts cfg) := by
  rw [List.countP_cons_of_pos he]
  exact Nat.succ_ne_self _

theorem Move.launched (h : Move cfg begins w w') (hw : w.Launched t)
    (hquiet : w'.trace.countP (Event.interrupts cfg) = w.trace.countP (Event.interrupts cfg)) :
    w'.Launched t := by
  cases h with
  | inert w' hin _ =>
    rw [hin.eq]
    exact hw.of_eq rfl rfl rfl rfl rfl
  | shook w' _ _ hin _ _ _ =>
    rw [hin.eq]
    exact hw.of_eq rfl rfl rfl rfl rfl
  | beginReset _ _ _ _ =>
    refine absurd hquiet (countP_interrupts_ne ?_)
    simp [Event.interrupts]
  | reset _ _ _ hin =>
    have hreset := hin.resetting
    rw [hw.resetting] at hreset
    exact absurd hreset (by decide)
  | closeInited _ hst =>
    rw [hw.state] at hst
    exact absurd hst (by decide)
  | close hcfg _ _ =>
    have hno : cfg.enableReconnect = false := by
      by_contra hyes
      have hst := hcfg (by simpa using hyes)
      rw [hw.state] at hst
      exact absurd hst (by decide)
    have hstop : Event.interrupts cfg (.stop w.state w.reconnecting) = true := by
      simp [Event.interrupts, hno]
    rw [List.countP_cons_of_neg (by simp [Event.interrupts])] at hquiet
    exact absurd hquiet (countP_interrupts_ne hstop)
  | disconnect => exact absurd hquiet (countP_interrupts_ne rfl)
  | _ => exact hw.of_eq rfl rfl rfl rfl rfl

theorem Moves.launched (h : Moves cfg w w') (hw : w.Launched t)
    (hquiet : w'.trace.countP (Event.interrupts cfg) = w.trace.countP (Event.interrupts cfg)) :
    w'.Launched t := by
  refine preserved_of_level (μ := fun w => w.trace.countP (Event.interrupts cfg)) ?_ ?_ h.seq hquiet hw
  · rintro w₁ w₂ ⟨_, hm⟩
    exact hm.trace_suffix.sublist.countP_le
  · rintro w₁ w₂ hw₁ ⟨_, hm⟩ hlevel
    exact hm.launched hw₁ hlevel

/-! ## Connecting -/

/-- **The attempt is over.** It failed and its transport is closed, or the transport is the
current one and works. -/
theorem World.Launched.onTcpConnect (h : w.Launched t) {i t' : ℕ} {req : ConnReq} (ok : Bool)
    (hi : w.connects[i]? = some (t', req)) :
    (onTcpConnect cfg t' req (uvStatus ok) { w with connects := w.connects.eraseIdx i }).Landed := by
  have hfirst : t' = t ∧ w.connects.eraseIdx i = [] := by
    obtain ⟨req₀, hconnects⟩ := h.connects
    rw [hconnects] at hi ⊢
    cases i with
    | zero => exact ⟨(Prod.mk.inj (Option.some.inj hi)).1.symm, rfl⟩
    | succ i => exact absurd hi (by simp)
  obtain ⟨rfl, hnil⟩ := hfirst
  rw [hnil, Libpomelo.onTcpConnect, if_neg (not_not.2 h.state)]
  cases ok with
  | false =>
    rw [if_pos (show uvStatus false = -1 from rfl)]
    refine enduring_landed.connectError ⟨rfl, ?_, ?_, ?_⟩ (by decide) req
    · intro t'' hconnecting
      obtain ⟨hbefore, hsame⟩ := open_closeSocket (by decide) hconnecting
      exact absurd (hsame ((h.only t'').1 hbefore)) (by decide)
    · intro t'' hinited
      exact h.none_inited t'' (open_closeSocket (by decide) hinited).1
    · intro t'' ht''
      have hnone := h.transport
      rw [show w.transport = some t'' from ht''] at hnone
      exact absurd hnone (by simp)
  | true =>
    have hconnecting : w.transports[t']? = some .connecting := (h.only t').2 rfl
    rw [if_neg (show uvStatus true ≠ -1 by decide)]
    dsimp only
    rw [if_neg (by simp [uvReadStart, hconnecting])]
    have hstart : (transportStart t' { w with
        connects := [], transport := some t', state := .connected }).Landed := by
      rw [transportStart]
      simp only [if_pos hconnecting]
      refine ⟨rfl, ?_, ?_, ?_⟩
      · intro t'' hafter
        rw [List.getElem?_set] at hafter
        split at hafter
        · exact absurd hafter (by simp)
        · next hne => exact hne ((h.only t'').1 hafter).symm
      · intro t'' hafter
        rw [List.getElem?_set] at hafter
        split at hafter
        · exact absurd hafter (by simp)
        · exact h.none_inited t'' hafter
      · intro t'' ht''
        obtain rfl : t' = t'' := Option.some.inj ht''
        rw [List.length_set]
        exact h.latest
    have hreq := @Enduring.handshakeReq cfg _ _ enduring_landed hstart req
      fun _ _ _ hv _ _ => hv.of_eq rfl rfl rfl
    split
    · next heq =>
      rw [heq] at hreq
      exact hreq.1
    · next heq =>
      rw [heq] at hreq
      exact hreq.2

/-- **`pc_connect`** launches an attempt, or none is under way. -/
theorem World.Landed.pcConnect (h : w.Landed) (hunset : w.state = .inited → w.transport = none)
    (hreset : w.resetting = false) (cb : ConnectCb)
    (hstage : attemptStage (w, true) ≠ some .notConnected) :
    ((pcConnect cb w).2 = false → (pcConnect cb w).1.Landed) ∧
      ((pcConnect cb w).2 = true → ∃ t, (pcConnect cb w).1.Launched t) := by
  have hcases := pcConnect_cases cb w
  generalize Libpomelo.pcConnect cb w = r at hcases ⊢
  cases hcases with
  | invalid => exact ⟨fun _ => h, fun hno => absurd hno (by simp)⟩
  | refused => exact ⟨fun _ => h.of_eq rfl rfl rfl, fun hno => absurd hno (by simp)⟩
  | crashed => exact ⟨fun _ => h.of_eq rfl rfl rfl, fun hno => absurd hno (by simp)⟩
  | notConnected supply hst hfails => exact absurd hstage (by simp [attemptStage, hst, hfails])
  | launched supply hst =>
    refine ⟨fun hno => absurd hno (by simp), fun _ => ⟨w.transports.length, ?_, rfl, hunset hst, hreset,
      ?_, ?_, ?_⟩⟩
    · exact ⟨⟨w.nextConn, cb⟩, by simp [World.note, h.connects]⟩
    · intro t
      have hnone := h.none_connecting t
      simp only [World.note, List.getElem?_append]
      split
      · next hlt => exact ⟨fun hc => absurd hc hnone, fun heq => absurd hlt (by omega)⟩
      · next hge =>
        constructor
        · intro hc
          have hmem := (List.getElem?_eq_some_iff.1 hc).1
          simp only [List.length_singleton] at hmem
          omega
        · rintro rfl
          simp
    · exact fun t hinited => h.none_inited t ((getElem?_concat_ne (by decide) t).1 hinited)
    · simp [World.note]

end Phases

/-! ## Turns -/

/-- At most one attempt is in the air. -/
def World.Orderly (w : World) : Prop := w.Landed ∨ ∃ t, w.Launched t

section Turns

variable {cfg : Config} {t : ℕ} {w w' : World}

theorem World.Landed.clientConnect (h : w.Landed) (hunset : w.state = .inited → w.transport = none)
    (hreset : w.resetting = false) (call : ConnectCall)
    (hstage : w.connectStage (.connect call) ≠ some .notConnected) :
    (clientConnect call w).Orderly := by
  have hprepared : ∀ host supply, ({ w with host := host, supply := supply } : World).Landed :=
    fun _ _ => h.of_eq rfl rfl rfl
  have hcases := clientConnect_cases call w
  rw [World.connectStage] at hstage
  generalize Libpomelo.clientConnect call w = w' at hcases ⊢
  cases hcases with
  | failed host supply => exact .inl (hprepared host supply)
  | refused host supply w' hconn hprepare =>
    rw [hprepare] at hstage
    have hno := ((hprepared host supply).pcConnect hunset hreset call.cb hstage).1
    rw [hconn] at hno
    exact .inl (hno rfl)
  | started host supply w' hconn hprepare =>
    rw [hprepare] at hstage
    have hyes := ((hprepared host supply).pcConnect hunset hreset call.cb hstage).2
    rw [hconn] at hyes
    obtain ⟨t, ht⟩ := hyes rfl
    exact .inr ⟨t, ht.of_eq rfl rfl rfl rfl rfl⟩

theorem World.Landed.reconnectTimer (h : w.Landed) (hunset : w.state = .inited → w.transport = none)
    (hreset : w.resetting = false) (hstage : w.connectStage .reconnectTimer ≠ some .notConnected) :
    (clientReconnectTimerCb cfg w).Orderly := by
  have hstop : ∀ w₁ : World, w₁.Landed →
      (w₁.andThen fun w => failWith cfg .reconnect { w with reconnecting := false }).Landed :=
    fun w₁ hw₁ => enduring_landed.moves (moves_attemptFailed w₁) hw₁
  rw [clientReconnectTimerCb]
  obtain ⟨supply, heq | ⟨hprepare, heq⟩⟩ := reconnectAttempt_cases w
  · rw [heq]
    exact .inl (hstop _ (h.of_eq rfl rfl rfl))
  · rw [heq]
    rw [World.connectStage, hprepare] at hstage
    have hsupply : ({ w with supply := supply } : World).Landed := h.of_eq rfl rfl rfl
    obtain ⟨hno, hyes⟩ := hsupply.pcConnect hunset hreset .reconnected hstage
    generalize Libpomelo.pcConnect .reconnected { w with supply := supply } = r at hno hyes ⊢
    rcases r with ⟨w₁, _ | _⟩
    · exact .inl (hstop w₁ (hno rfl))
    · exact .inr (hyes rfl)

/-! What precedes an attempt does not look at the timer. -/

theorem connectReqNew_timer (timer : Timer) (w : World) :
    connectReqNew { w with reconnectTimer := timer } =
      ({ (connectReqNew w).1 with reconnectTimer := timer }, (connectReqNew w).2) := by
  rw [connectReqNew, connectReqNew]
  show (if ¬ w.outcome then _ else _) = _
  by_cases h : ¬ w.outcome
  · rw [if_pos h, if_pos h]
    rfl
  · rw [if_neg h, if_neg h]
    rfl

theorem reconnectPrepare_timer (timer : Timer) (w : World) :
    reconnectPrepare { w with reconnectTimer := timer } =
      ({ (reconnectPrepare w).1 with reconnectTimer := timer }, (reconnectPrepare w).2) := by
  rw [reconnectPrepare, reconnectPrepare]
  show (if w.host ∧ ¬ w.outcome then _ else _) = _
  by_cases h : w.host ∧ ¬ w.outcome
  · rw [if_pos h, if_pos h]
    rfl
  · rw [if_neg h, if_neg h]
    by_cases hhost : w.host = true
    · rw [if_pos hhost, if_pos hhost]
      exact connectReqNew_timer timer w.called
    · rw [if_neg hhost, if_neg hhost]
      exact connectReqNew_timer timer w

/-- Firing the timer has no part in how far its attempt gets. -/
theorem connectStage_timer (timer : Timer) (w : World) :
    ({ w with reconnectTimer := timer } : World).connectStage .reconnectTimer =
      w.connectStage .reconnectTimer := by
  rw [World.connectStage, World.connectStage, reconnectPrepare_timer]
  rfl

/-- **A turn that starts with no attempt in the air.** -/
theorem Turn.landed {l : Label} (h : Turn cfg w l w') (hw : w.Landed)
    (hunset : w.state = .inited → w.transport = none) (hreset : w.resetting = false)
    (hstage : w.connectStage l ≠ some .notConnected) : w'.Orderly := by
  cases h with
  | moves _ hm => exact .inl (enduring_landed.moves hm hw)
  | read t _ _ hm =>
    have hstart : ({ w with reading := some t }.note (.read t)).Landed := hw.of_eq rfl rfl rfl
    exact .inl ((enduring_landed.moves hm hstart).of_eq rfl rfl rfl)
  | tcpConnect i ok t req _ hi _ =>
    rw [hw.connects] at hi
    exact absurd hi (by simp)
  | handshakeReq i ok write working listed _ hi hcb =>
    have hm : Moves cfg w _ := moves_writeDone hi (.inl hcb) (uvStatus ok) working listed
    exact .inl (enduring_landed.handshakeReqCb (enduring_landed.moves hm hw) _ _)
  | handshakeAck i ok write working listed _ hi hcb =>
    have hm : Moves cfg w _ := moves_writeDone hi (.inr (.inl hcb)) (uvStatus ok) working listed
    have hdone := enduring_landed.moves hm hw
    exact .inl (enduring_landed.handshakeAckCb hdone fun _ _ => hdone.of_eq rfl rfl rfl)
  | reconnectTimer _ _ =>
    have hfired : ({ w with reconnectTimer := uvTimerFired w.reconnectTimer } : World).Landed :=
      hw.of_eq rfl rfl rfl
    rw [← connectStage_timer (uvTimerFired w.reconnectTimer)] at hstage
    exact hfired.reconnectTimer hunset hreset hstage
  | connect call _ _ => exact hw.clientConnect hunset hreset call hstage
  | loopEnd | join | joinNone => exact .inl (hw.of_eq rfl rfl rfl)
  | tailEmit _ hm | tailExit _ hm _ => exact .inl ((enduring_landed.moves hm hw).of_eq rfl rfl rfl)
  | user pc _ hm _ => exact .inl ((enduring_landed.moves hm hw).of_eq rfl rfl rfl)
  | free _ =>
    obtain ⟨w₁, hm, heq | heq⟩ := clientFree_moves cfg w
    · rw [heq]
      exact .inl (enduring_landed.moves hm hw)
    · rw [heq]
      exact .inl ((enduring_landed.moves hm hw).of_eq rfl rfl rfl)

/-- `pc_connect` refuses a client that is busy. -/
theorem pcConnect_of_ne (cb : ConnectCb) (h : w.state ≠ .inited) : pcConnect cb w = (w, false) := by
  rw [pcConnect, pcConnectWith, if_pos h]

/-- A second attempt does not get anywhere, and ends in a call of `pc_client_stop`. -/
theorem moves_reconnectTimer_busy (h : w.state ≠ .inited) :
    Moves cfg w (clientReconnectTimerCb cfg w) := by
  have hbusy : ∃ supply, reconnectAttempt w = ({ w with supply := supply }, false) := by
    obtain ⟨supply, heq | ⟨-, heq⟩⟩ := reconnectAttempt_cases w
    · exact ⟨supply, heq⟩
    · exact ⟨supply, heq.trans (pcConnect_of_ne .reconnected h)⟩
  obtain ⟨supply, heq⟩ := hbusy
  rw [clientReconnectTimerCb, heq]
  exact (Moves.supply supply).trans (moves_attemptFailed _)

/-- **A turn that starts with an attempt in the air** and does not deliver its result. -/
theorem Turn.launched {l : Label} (h : Turn cfg w l w') (hw : w.Launched t) (hlife : w.Lifecycle)
    (hquiet : w'.trace.countP (Event.interrupts cfg) = w.trace.countP (Event.interrupts cfg)) :
    w'.Orderly := by
  have hidle : ∀ t, w.working t = false := hlife.idle (.inr (.inl hw.state))
  have hbusy : w.state ≠ .inited := by
    rw [hw.state]
    decide
  cases h with
  | moves _ hm => exact .inr ⟨t, hm.launched hw hquiet⟩
  | read t' _ hwork _ =>
    rw [hidle t'] at hwork
    exact absurd hwork (by decide)
  | tcpConnect i ok t' req _ hi _ => exact .inl (hw.onTcpConnect ok hi)
  | handshakeReq i ok write working listed _ _ _ =>
    -- the transport of the write does not work any more
    have hdone : ({ w with writes := w.writes.eraseIdx i }.note
        (.writeDone write (uvStatus ok) working listed)).Launched t := hw.of_eq rfl rfl rfl rfl rfl
    have hdead : ({ w with writes := w.writes.eraseIdx i }.note
        (.writeDone write (uvStatus ok) working listed)).working write.transport = false :=
      hidle write.transport
    rw [handshakeReqCb_dead hdead]
    exact .inr ⟨t, hdone⟩
  | handshakeAck i ok write working listed _ _ _ =>
    have hdone : ({ w with writes := w.writes.eraseIdx i }.note
        (.writeDone write (uvStatus ok) working listed)).Launched t := hw.of_eq rfl rfl rfl rfl rfl
    have hdead : ({ w with writes := w.writes.eraseIdx i }.note
        (.writeDone write (uvStatus ok) working listed)).working write.transport = false :=
      hidle write.transport
    rw [handshakeAckCb_dead hdead]
    exact .inr ⟨t, hdone⟩
  | reconnectTimer _ hactive =>
    have hm : Moves cfg w _ := .head (.fireTimer hactive) (moves_reconnectTimer_busy hbusy)
    exact .inr ⟨t, hm.launched hw hquiet⟩
  | connect call _ _ =>
    have hprepared : ∀ host supply, ({ w with host := host, supply := supply } : World).Launched t :=
      fun _ _ => hw.of_eq rfl rfl rfl rfl rfl
    have hrefuses : ∀ host supply, pcConnect call.cb { w with host := host, supply := supply } =
        ({ w with host := host, supply := supply }, false) :=
      fun _ _ => pcConnect_of_ne call.cb hbusy
    have hcases := clientConnect_cases call w
    generalize clientConnect call w = w' at hcases ⊢
    cases hcases with
    | failed host supply => exact .inr ⟨t, hprepared host supply⟩
    | refused host supply w' hconn =>
      rw [hrefuses] at hconn
      obtain ⟨rfl, -⟩ := Prod.mk.inj hconn
      exact .inr ⟨t, hprepared host supply⟩
    | started host supply w' hconn =>
      rw [hrefuses] at hconn
      exact absurd (Prod.mk.inj hconn).2 (by decide)
  | loopEnd hempty _ =>
    obtain ⟨req, hconnects⟩ := hw.connects
    rw [loopIdle, hconnects] at hempty
    exact absurd hempty (by simp)
  | tailEmit _ hm | tailExit _ hm _ =>
    exact .inr ⟨t, (hm.launched hw hquiet).of_eq rfl rfl rfl rfl rfl⟩
  | user pc _ hm _ => exact .inr ⟨t, (hm.launched hw hquiet).of_eq rfl rfl rfl rfl rfl⟩
  | join | joinNone => exact .inr ⟨t, hw.of_eq rfl rfl rfl rfl rfl⟩
  | free _ =>
    obtain ⟨w₁, hm, heq | heq⟩ := clientFree_moves cfg w
    · rw [heq] at hquiet ⊢
      exact .inr ⟨t, hm.launched hw hquiet⟩
    · rw [heq] at hquiet ⊢
      exact .inr ⟨t, (hm.launched hw hquiet).of_eq rfl rfl rfl rfl rfl⟩

/-- The result of a TCP connect is handled. -/
theorem step_tcpConnect {supply : List Bool} {i : ℕ} {ok : Bool}
    (h : step cfg supply (.tcpConnect i ok) w = some w') :
    ∃ t req, w.connects[i]? = some (t, req) ∧
      w' = onTcpConnect cfg t req (uvStatus ok)
        { w with supply := supply, connects := w.connects.eraseIdx i } := by
  rw [step] at h
  split at h
  · exact absurd h (by simp)
  · simp only [userStep, loopStep] at h
    split at h
    · split at h
      · next t req hi =>
        split at h
        · exact ⟨t, req, hi, (Option.some.inj h).symm⟩
        · exact absurd h (by simp)
      · exact absurd h (by simp)
    · exact absurd h (by simp)

end Turns

/-! ## Runs -/

theorem reach_orderly {cfg : Config} {w : World} (h : (clientLts cfg).Reach (Unhurried cfg) w) :
    w.Orderly := by
  apply h.invariant (P := World.Orderly)
  · rintro _ ⟨reqId, files, -, rfl⟩
    exact .inl ⟨rfl, fun _ => by simp [World.init], fun _ => by simp [World.init],
      fun _ ht => absurd ht (by simp [World.init])⟩
  · intro w l w' hr hw hstep hok
    obtain ⟨hlife, hest⟩ := kept_established.reach hr
    have hreset : w.resetting = false := reach_settled hr (step_halted hstep)
    have hturn := step_turn (reach_reading hr) hstep
    rcases hw with hlanded | ⟨t, hlaunched⟩
    · have hw₀ : ({ w with supply := l.1 } : World).Landed := hlanded.of_eq rfl rfl rfl
      exact hturn.landed hw₀ (fun hst => hest.unset (.inl hst)) hreset hok.1
    · have hw₀ : ({ w with supply := l.1 } : World).Launched t := hlaunched.of_eq rfl rfl rfl rfl rfl
      by_cases hlands : l.2.lands = true
      · obtain ⟨supply, l⟩ := l
        cases l with
        | tcpConnect i ok =>
          obtain ⟨t', req, hi, rfl⟩ := step_tcpConnect hstep
          exact .inl (hw₀.onTcpConnect ok hi)
        | _ => exact absurd hlands (by simp [Label.lands])
      · refine hturn.launched hw₀ (hlife.of_eq rfl rfl rfl id) (hok.2 ?_ (by simpa using hlands))
        obtain ⟨req, hconnects⟩ := hlaunched.connects
        rw [hconnects]
        rfl

/-- **One connection at a time.** In every run in which no `uv_tcp_connect` fails and nobody
disconnects or stops the client while a TCP connect is under way: at most one transport is open,
the current one is the newest, and when the client is `CLOSED` none is left open. -/
theorem one_transport {cfg : Config} {w : World} (h : (clientLts cfg).Reach (Unhurried cfg) w) :
    w.OneTransport := by
  have hlife : w.Lifecycle := kept_lifecycle.reach h
  rcases reach_orderly h with hlanded | ⟨t, hlaunched⟩
  · exact hlanded.oneTransport hlife
  · exact hlaunched.oneTransport hlife

/-- A client that becomes `WORKING`, loses its connection and connects again. -/
def returnRun : List (List Bool × Label) :=
  plainStart ++ [([], .tcpRead 0 [] .error), ([], .reconnectTimer), ([], .tcpConnect 0 true)]

/-- Its second transport is the current one. -/
theorem one_transport_returnRun :
    ∃ w, runSteps (plainConfig true) returnRun plainInit = some w ∧
      w.transports = [.closed, .working] ∧ w.OneTransport := by
  have hrun : ∃ w, runSteps (plainConfig true) returnRun plainInit = some w ∧
      w.transports = [.closed, .working] := ⟨_, rfl, rfl⟩
  obtain ⟨w, hrun, htransports⟩ := hrun
  have hok : RunMeets (plainConfig true) (Unhurried (plainConfig true)) returnRun plainInit := by
    decide +kernel
  have hreach := reach_of_runSteps returnRun reach_plainInit hok hrun
  exact ⟨w, hrun, htransports, one_transport hreach⟩

/-- A client that is stopped while it connects. -/
def hurriedRun : List (List Bool × Label) := [([], .connect .connect2), ([], .call .stop)]

/-- **Its transport is left open.** -/
theorem one_transport_hurriedRun :
    ∃ w, runSteps (plainConfig false) hurriedRun plainInit = some w ∧ w.state = .closed ∧
      w.transports = [.connecting] ∧ ¬ w.OneTransport := by
  have hrun : ∃ w, runSteps (plainConfig false) hurriedRun plainInit = some w ∧
      w.state = .closed ∧ w.transports = [.connecting] := ⟨_, rfl, rfl, rfl⟩
  obtain ⟨w, hrun, hclosed, htransports⟩ := hrun
  refine ⟨w, hrun, hclosed, htransports, fun hone => ?_⟩
  exact hone.closed hclosed 0 ⟨.connecting, by rw [htransports]; rfl, by decide⟩

end Libpomelo
