import Libpomelo.Turns
import Libpomelo.System

/-!
# What becomes of a handshake response

`pc__handshake_resp` stops the timer that guards the handshake before it looks at the
response. From there on the connection gets on only by an ack, and ends only by
`pc_client_stop`; so when the handler returns, an ack should have been queued, or the client
been stopped and the connection with it (`HandshakeSettled`).

It returns `-1` for a response that is malformed or has the wrong code, but not when the
user's callback refuses it, and not when the ack cannot be allocated or written; and while
the client is reconnecting `pc_client_stop` does nothing.
-/

namespace Libpomelo

/-- An ack was queued. -/
def Acked (newer : List Event) : Prop := ∃ t data, .wrote ⟨.handshakeAck, t, data⟩ ∈ newer

/-- `pc_client_stop` was called. -/
def Stopped (newer : List Event) : Prop := ∃ state reconnecting, .stop state reconnecting ∈ newer

/-- **Settled.** An ack was queued, or the client was stopped and has no connection. -/
def HandshakeSettled (w w' : World) : Prop :=
  ∃ newer, w'.trace = newer ++ w.trace ∧ (Acked newer ∨ Stopped newer ∧ w'.transport = none)

/-- `pc_client_stop` returns at once. -/
def World.deafToStop (cfg : Config) (w : World) : Bool := cfg.enableReconnect && w.reconnecting

/-- An accepted response up to the answer of the user's callback: the client as the callback
leaves it, and the answer. -/
def handshakeAnswer (cfg : Config) (res : Json) (w : World) : World × ℤ :=
  let w := setupSys res { w with handshakeTimer := w.handshakeTimer.map uvTimerStop }
  askUser cfg res (w.note (.shook w.transport res w.tables.serverProtos w.tables.clientProtos))

/-- `pc__binary_write` can write: the client is connected, and neither its allocations nor
`uv_write` fails. -/
def World.Writable (w : World) : Prop :=
  (w.state = .connected ∨ w.state = .working) ∧ w.transport.isSome = true ∧ w.outcome = true ∧
    w.called.outcome = true ∧ w.called.called.outcome = true

/-- The ack can be encoded and written. -/
def World.AckWritable (w : World) : Prop := w.outcome = true ∧ w.called.Writable

/-- **What settles a response.** One that is malformed or refused finds a client that can be
stopped; behind any other the callback agrees and the ack can be written, or the callback
itself has ended the connection. -/
def HandshakeHandled (cfg : Config) (body : Bytes) (w : World) : Prop :=
  match cfg.loadb body with
  | none => w.deafToStop cfg = false
  | some res =>
    if jsonIntegerValue (jsonObjectGet (some res) "code") ≠ handshakeOk then
      w.deafToStop cfg = false
    else
      (handshakeAnswer cfg res w).2 = 0 ∧ (handshakeAnswer cfg res w).1.AckWritable ∨
        (handshakeAnswer cfg res w).1.transport = none

theorem Stopped.append {newer : List Event} (h : Stopped newer) (older : List Event) :
    Stopped (newer ++ older) := by
  obtain ⟨state, reconnecting, hmem⟩ := h
  exact ⟨state, reconnecting, List.mem_append_left _ hmem⟩

section Calls

variable {cfg : Config} {w w' : World}

theorem not_acked_of_adds {newer : List Event} (h : ∀ e ∈ newer, e.OfCall = true) :
    ¬ Acked newer := by
  rintro ⟨t, data, hmem⟩
  exact absurd (h _ hmem) (by simp [Event.OfCall])

/-- Only `pc_client_stop` touches the transport. -/
theorem userActWith_transport {reconnect : World → World} {act : UserAct} (hact : act ≠ .stop)
    (w : World) : (userActWith cfg reconnect w act).transport = w.transport := by
  have hasync : ∀ type id route msg (v : World),
      (asyncWrite type id route msg v).transport = v.transport := by
    intro type id route msg v
    have hcases := asyncWrite_cases type id route msg v
    generalize asyncWrite type id route msg v = v' at hcases ⊢
    cases hcases <;> rfl
  cases act with
  | stop => exact absurd rfl hact
  | disconnect =>
    rw [userActWith, disconnectSend]
    split <;> rfl
  | request route msg =>
    rw [userActWith, pcRequest]
    split
    · rfl
    · exact hasync ..
  | notify route msg =>
    rw [userActWith, pcNotify]
    split
    · rfl
    · exact hasync ..
  | protoCopy => rfl

/-- A call in a request callback that the reset runs. -/
theorem releaseInReset_transport (req : TcpReq) (hw : w.transport = none) :
    (releaseInReset cfg req w).transport = none := by
  refine callbackWith_preserves (P := fun v => v.transport = none) ?_ hw
  intro v act hv
  by_cases hact : act = .stop
  · subst hact
    rw [userActWith, stopWith]
    split
    · split
      · exact hv
      · exact hv
    · split
      · exact hv
      · split
        · exact hv
        · rfl
  · rw [userActWith_transport hact, hv]

/-- A reset leaves no connection. -/
theorem clientReconnect_transport (w : World) : (clientReconnect cfg w).transport = none := by
  have hclear : (requestsClear (releaseInReset cfg) w.requests.length
      (stopTimers (dropTransport { w with reconnecting := true, resetting := true }))).transport =
        none := by
    refine requestsClear_preserves (P := fun v => v.transport = none) ?_ _ _ rfl
    exact fun v key req before after hv _ => releaseInReset_transport req hv
  have hcases := clientReconnect_cases cfg w
  generalize clientReconnect cfg w = w' at hcases ⊢
  cases hcases with
  | crashed => exact hclear
  | reset => exact hclear

/-- **`pc_client_stop` on a connected client** ends the connection, unless the client is
reconnecting. -/
theorem clientStop_transport (hstate : w.state = .connected) (ht : w.transport ≠ none) :
    (clientStop cfg w).transport = none ↔ w.deafToStop cfg = false := by
  have hopen : w.state ≠ .disconnecting ∧ w.state ≠ .inited ∧ w.state ≠ .closed := by
    rw [hstate]
    decide
  rw [clientStop, stopWith, World.deafToStop]
  split
  · next hreconnects =>
    split
    · next hrec =>
      rw [hreconnects.1, show w.reconnecting = true from hrec]
      exact iff_of_false ht (by decide)
    · next hrec =>
      have hno : w.reconnecting = false := Bool.eq_false_iff.mpr hrec
      rw [hreconnects.1, hno]
      exact iff_of_true (clientReconnect_transport _) rfl
  · next hplain =>
    have hcfg : cfg.enableReconnect = false := by
      by_contra hno
      exact hplain ⟨by simpa using hno, hopen.1⟩
    rw [hcfg]
    split
    · next hinited => exact absurd hinited hopen.2.1
    · split
      · next hclosed => exact absurd hclosed hopen.2.2
      · exact iff_of_true rfl rfl

/-- A callback that leaves no connection has stopped the client. -/
theorem callback_stopped (e : Event) (w : World) : ∃ newer,
    (callback cfg e w).trace = newer ++ e :: w.trace ∧ (∀ e ∈ newer, e.OfCall = true) ∧
      ((callback cfg e w).transport = w.transport ∨ Stopped newer) := by
  refine callbackWith_preserves (P := fun v => ∃ newer, v.trace = newer ++ e :: w.trace ∧
    (∀ e ∈ newer, e.OfCall = true) ∧ (v.transport = w.transport ∨ Stopped newer)) ?_
    ⟨[], rfl, by simp, .inl rfl⟩
  rintro v act ⟨newer, htrace, hcalls, hkept⟩
  by_cases hact : act = .stop
  · subst hact
    obtain ⟨more, hmore, hmoreCalls⟩ : ∃ more,
        (clientStop cfg v).trace = more ++ .stop v.state v.reconnecting :: v.trace ∧
          ∀ e ∈ more, e.OfCall = true := clientStop_trace v
    refine ⟨more ++ .stop v.state v.reconnecting :: newer, ?_, ?_, ?_⟩
    · change (clientStop cfg v).trace = _
      rw [hmore, htrace, List.append_assoc, List.cons_append]
    · intro e' he'
      rcases List.mem_append.mp he' with hnew | hold
      · exact hmoreCalls e' hnew
      · rcases List.mem_cons.mp hold with rfl | hold
        · rfl
        · exact hcalls e' hold
    · exact .inr ⟨v.state, v.reconnecting, List.mem_append_right _ List.mem_cons_self⟩
  · obtain ⟨more, hmore, hmoreCalls⟩ : v.Adds (userActWith cfg (clientReconnect cfg) v act) :=
      adds_userActWith adds_clientReconnect v act
    refine ⟨more ++ newer, ?_, ?_, ?_⟩
    · rw [hmore, htrace, List.append_assoc]
    · intro e' he'
      rcases List.mem_append.mp he' with hnew | hold
      · exact hmoreCalls e' hnew
      · exact hcalls e' hold
    · rw [userActWith_transport hact]
      rcases hkept with hsame | ⟨state, reconnecting, hmem⟩
      · exact .inl hsame
      · exact .inr ⟨state, reconnecting, List.mem_append_right _ hmem⟩

end Calls

section Response

variable {cfg : Config} {w : World} {body : Bytes}

/-- The ack has no body, so its package takes one allocation. -/
theorem handshakeAck_eq (w : World) : handshakeAck w =
    if w.outcome then (binaryWrite .handshakeAck (some [2, 0, 0, 0]) w.called).1 else w.called := by
  have hpkg : pkgEncode w.supply pkgHandshakeAck [] =
      if w.outcome then some [2, 0, 0, 0] else none := by
    rw [pkgEncode, if_neg (by decide)]
    rfl
  rw [handshakeAck, encodePkg, hpkg]
  cases w.outcome <;> rfl

theorem queueWrite_trace (cb : WriteCb) (t : ℕ) (data : Option Bytes) (w : World) :
    (queueWrite cb t data w).trace = .wrote ⟨cb, t, data⟩ :: w.trace := rfl

theorem binaryWrite_of_writable {cb : WriteCb} {data : Bytes} (h : w.Writable) :
    ∃ t, binaryWrite cb (some data) w =
      (queueWrite cb t (some data) w.called.called.called, true) := by
  obtain ⟨hstate, ht, hreq, hcontext, hwrite⟩ := h
  obtain ⟨t, ht⟩ := Option.isSome_iff_exists.mp ht
  have hopen : ¬ (w.state ≠ .connected ∧ w.state ≠ .working) := by
    rintro ⟨hne, hne'⟩
    exact hstate.elim hne hne'
  refine ⟨t, ?_⟩
  unfold binaryWrite
  rw [if_neg hopen, if_neg (by simpa using hreq), ht]
  dsimp only
  rw [if_neg (by simpa using hcontext), if_neg (by simpa using hwrite)]

theorem binaryWrite_of_not_writable {cb : WriteCb} {data : Bytes} (h : ¬ w.Writable) :
    (binaryWrite cb (some data) w).1.trace = w.trace := by
  unfold binaryWrite
  by_cases hopen : w.state ≠ .connected ∧ w.state ≠ .working
  · rw [if_pos hopen]
  rw [if_neg hopen]
  cases hreq : w.outcome with
  | false => rfl
  | true =>
    rw [if_neg (by simp)]
    rcases ht : w.transport with _ | t
    · rfl
    dsimp only
    cases hcontext : w.called.outcome with
    | false => rfl
    | true =>
      rw [if_neg (by simp)]
      cases hwrite : w.called.called.outcome with
      | false => rfl
      | true =>
        refine absurd ⟨?_, by rw [ht]; rfl, hreq, hcontext, hwrite⟩ h
        by_contra hno
        exact hopen (not_or.mp hno)

theorem handshakeAck_of_writable (h : w.AckWritable) :
    ∃ t data, (handshakeAck w).trace = .wrote ⟨.handshakeAck, t, data⟩ :: w.trace := by
  obtain ⟨t, hwrite⟩ : ∃ t, binaryWrite .handshakeAck (some [2, 0, 0, 0]) w.called =
      (queueWrite .handshakeAck t (some [2, 0, 0, 0]) w.called.called.called.called, true) :=
    binaryWrite_of_writable h.2
  refine ⟨t, some [2, 0, 0, 0], ?_⟩
  rw [handshakeAck_eq, if_pos h.1, hwrite, queueWrite_trace]
  simp only [World.called_trace]

theorem handshakeAck_of_not_writable (h : ¬ w.AckWritable) :
    (handshakeAck w).trace = w.trace := by
  rw [handshakeAck_eq]
  split
  · next hpkg => exact binaryWrite_of_not_writable fun hwritable => h ⟨hpkg, hwritable⟩
  · rfl

theorem handshakeAck_transport (w : World) : (handshakeAck w).transport = w.transport := by
  have hcases := handshakeAck_cases w
  generalize handshakeAck w = w' at hcases ⊢
  cases hcases <;> rfl

theorem handshakeSettled_iff {w' : World} {newer : List Event} (h : w'.trace = newer ++ w.trace) :
    HandshakeSettled w w' ↔ Acked newer ∨ Stopped newer ∧ w'.transport = none := by
  constructor
  · rintro ⟨newer', htrace, hsettled⟩
    obtain rfl : newer' = newer := List.append_cancel_right (htrace.symm.trans h)
    exact hsettled
  · exact fun hsettled => ⟨newer, h, hsettled⟩

/-- Up to the answer no ack is written, and only a stop ends the connection. -/
theorem handshakeAnswer_trace (res : Json) (w : World) : ∃ newer,
    (handshakeAnswer cfg res w).1.trace = newer ++ w.trace ∧ ¬ Acked newer ∧
      ((handshakeAnswer cfg res w).1.transport = w.transport ∨ Stopped newer) := by
  have hsetup := inert_setupSys res { w with handshakeTimer := w.handshakeTimer.map uvTimerStop }
  have htrace := congrArg World.trace hsetup
  have htransport := congrArg World.transport hsetup
  rw [handshakeAnswer]
  generalize setupSys res { w with handshakeTimer := w.handshakeTimer.map uvTimerStop } = w₁
    at htrace htransport ⊢
  rw [askUser]
  split
  · refine ⟨[.shook w₁.transport res w₁.tables.serverProtos w₁.tables.clientProtos], ?_, ?_,
      .inl htransport⟩
    · rw [← htrace]
      rfl
    · rintro ⟨t, data, hmem⟩
      exact absurd (List.mem_singleton.mp hmem) (by simp)
  · have hstopped : ∃ newer, (callback cfg .handshakeCb (w₁.note _)).trace = _ ∧ _ :=
      callback_stopped .handshakeCb
        (w₁.note (.shook w₁.transport res w₁.tables.serverProtos w₁.tables.clientProtos))
    obtain ⟨newer, hnewer, hcalls, hkept⟩ := hstopped
    refine ⟨newer ++ [.handshakeCb,
      .shook w₁.transport res w₁.tables.serverProtos w₁.tables.clientProtos], ?_, ?_, ?_⟩
    · rw [hnewer, ← htrace, List.append_assoc]
      rfl
    · rintro ⟨t, data, hmem⟩
      rcases List.mem_append.mp hmem with hmem | hmem
      · exact not_acked_of_adds hcalls ⟨t, data, hmem⟩
      · exact absurd hmem (by simp)
    · exact hkept.imp (fun hsame => hsame.trans htransport) fun hstopped => hstopped.append _

/-- A refused response. -/
theorem refused_settled_iff {v : World} (hstate : v.state = .connected) (ht : v.transport ≠ none)
    (htrace : v.trace = .pkg pkgHandshake body :: w.trace)
    (hrun : (v.andThen (failWith cfg .package)).halted = none) :
    HandshakeSettled w (v.andThen (failWith cfg .package)) ↔ v.deafToStop cfg = false := by
  have hv : v.halted = none := World.running_of_andThen hrun
  rw [World.andThen_of_none hv, failWith]
  obtain ⟨newer, hnewer, hcalls⟩ : ∃ newer, (clientStop cfg (v.note (.failure .package))).trace =
      newer ++ .stop v.state v.reconnecting :: .failure .package :: v.trace ∧
        ∀ e ∈ newer, e.OfCall = true := clientStop_trace _
  have hall : (clientStop cfg (v.note (.failure .package))).trace =
      (newer ++ [.stop v.state v.reconnecting, .failure .package, .pkg pkgHandshake body]) ++
        w.trace := by
    rw [hnewer, List.append_assoc]
    rw [htrace]
    rfl
  have hstop : (clientStop cfg (v.note (.failure .package))).transport = none ↔
      v.deafToStop cfg = false := clientStop_transport hstate ht
  rw [handshakeSettled_iff hall, hstop]
  constructor
  · rintro (⟨t, data, hmem⟩ | ⟨-, hheard⟩)
    · rcases List.mem_append.mp hmem with hmem | hmem
      · exact absurd ⟨t, data, hmem⟩ (not_acked_of_adds hcalls)
      · exact absurd hmem (by simp)
    · exact hheard
  · exact fun hheard => .inr ⟨⟨v.state, v.reconnecting, by simp⟩, hheard⟩

/-- What the handler does behind an answer. -/
def ackAnswer (res : Json) (answer : World × ℤ) : World :=
  if answer.2 = 0 then answer.1.andThen fun w => handshakeAck (w.note (.agreed w.transport res))
  else answer.1

theorem handshakeResp_accepted {timer : Timer} {res : Json} (htimer : w.handshakeTimer = some timer)
    (hload : cfg.loadb body = some res)
    (hcode : jsonIntegerValue (jsonObjectGet (some res) "code") = handshakeOk) :
    handshakeResp cfg body w =
      ((ackAnswer res (handshakeAnswer cfg res w)).andThen heartbeat, true) := by
  rw [handshakeResp, htimer]
  dsimp only
  rw [hload]
  dsimp only
  rw [if_neg (by simpa using hcode), handshakeAnswer, htimer]
  rfl

theorem heartbeat_frame (w : World) :
    (heartbeat w).trace = w.trace ∧ (heartbeat w).transport = w.transport := by
  rw [heartbeat]
  split <;> exact ⟨rfl, rfl⟩

theorem andThen_heartbeat_frame (w : World) :
    (w.andThen heartbeat).trace = w.trace ∧ (w.andThen heartbeat).transport = w.transport := by
  by_cases hhalt : w.halted.isSome = true
  · rw [World.andThen_of_some hhalt]
    exact ⟨rfl, rfl⟩
  · rw [World.andThen_of_none (by simpa using hhalt)]
    exact heartbeat_frame w

/-- What an answer leads to. -/
theorem accepted_settled_iff {v : World} {newer : List Event} {answer : ℤ} {res : Json}
    (ht : w.transport ≠ none) (htrace : v.trace = newer ++ w.trace) (hnone : ¬ Acked newer)
    (hkept : v.transport = w.transport ∨ Stopped newer)
    (hrun : ((ackAnswer res (v, answer)).andThen heartbeat).halted = none) :
    HandshakeSettled w ((ackAnswer res (v, answer)).andThen heartbeat) ↔
      answer = 0 ∧ v.AckWritable ∨ v.transport = none := by
  obtain ⟨hsame, hsameTransport⟩ := andThen_heartbeat_frame (ackAnswer res (v, answer))
  have hended : Stopped newer ∧ v.transport = none ↔ v.transport = none := by
    refine ⟨And.right, fun hgone => ⟨?_, hgone⟩⟩
    exact hkept.resolve_left fun hstill => ht (hstill.symm.trans hgone)
  by_cases hagrees : answer = 0
  · subst hagrees
    have hacking : (ackAnswer res (v, 0)).halted = none := World.running_of_andThen hrun
    rw [ackAnswer, if_pos rfl] at hacking
    have hv : v.halted = none := World.running_of_andThen hacking
    have hack : ackAnswer res (v, 0) = handshakeAck (v.note (.agreed v.transport res)) := by
      rw [ackAnswer, if_pos rfl, World.andThen_of_none hv]
    have hgone : (handshakeAck (v.note (.agreed v.transport res))).transport = v.transport :=
      handshakeAck_transport _
    rw [hack] at hsame hsameTransport ⊢
    by_cases hwritable : v.AckWritable
    · -- the ack is queued
      obtain ⟨t, data, hwrote⟩ : ∃ t data,
          (handshakeAck (v.note (.agreed v.transport res))).trace =
            .wrote ⟨.handshakeAck, t, data⟩ :: .agreed v.transport res :: v.trace :=
        handshakeAck_of_writable hwritable
      refine iff_of_true
        ⟨.wrote ⟨.handshakeAck, t, data⟩ :: .agreed v.transport res :: newer, ?_, ?_⟩
        (.inl ⟨rfl, hwritable⟩)
      · rw [hsame, hwrote, htrace]
        rfl
      · exact .inl ⟨t, data, List.mem_cons_self⟩
    · -- its failure is ignored: only a stop can have ended the connection
      have hnothing : (handshakeAck (v.note (.agreed v.transport res))).trace =
          (.agreed v.transport res :: newer) ++ w.trace := by
        have hkeeps : (handshakeAck (v.note (.agreed v.transport res))).trace =
            .agreed v.transport res :: v.trace := handshakeAck_of_not_writable hwritable
        rw [hkeeps, htrace]
        rfl
      have hacked : ¬ Acked (.agreed v.transport res :: newer) := by
        rintro ⟨t, data, hmem⟩
        exact hnone ⟨t, data, by simpa using hmem⟩
      have hstop : Stopped (.agreed v.transport res :: newer) ↔ Stopped newer := by
        simp [Stopped]
      rw [handshakeSettled_iff (hsame.trans hnothing), hsameTransport, hgone, hstop, hended]
      simp [hacked, hwritable]
  · -- the callback refused, and nothing follows from it
    have hack : ackAnswer res (v, answer) = v := if_neg hagrees
    rw [hack] at hsame hsameTransport ⊢
    rw [handshakeSettled_iff (hsame.trans htrace), hsameTransport, hended]
    simp [hnone, hagrees]

/-- How the dispatcher goes on behind the handler. -/
theorem pkgCb_handshake (w : World) : pkgCb cfg pkgHandshake body w =
    if (handshakeResp cfg body (w.note (.pkg pkgHandshake body))).2 then
      (handshakeResp cfg body (w.note (.pkg pkgHandshake body))).1
    else (handshakeResp cfg body (w.note (.pkg pkgHandshake body))).1.andThen
      (failWith cfg .package) := by
  have hdispatch : dispatch cfg pkgHandshake body (w.note (.pkg pkgHandshake body)) =
      handshakeResp cfg body (w.note (.pkg pkgHandshake body)) := rfl
  rw [pkgCb, hdispatch]
  rcases handshakeResp cfg body (w.note (.pkg pkgHandshake body)) with ⟨w', _ | _⟩ <;> rfl

/-- **When a handshake response is settled.** A client in the state `CONNECTED` gets a
response on its connection, and the handler returns. The ack is queued, or the client is
stopped and the connection closed, exactly when a malformed or refused response finds a
client that can be stopped, and behind any other the user's callback agrees and the ack can
be written, or the callback has itself ended the connection. -/
theorem handshakeSettled_pkgCb {t : ℕ} (hstate : w.state = .connected)
    (ht : w.transport = some t) (hrun : (pkgCb cfg pkgHandshake body w).halted = none) :
    HandshakeSettled w (pkgCb cfg pkgHandshake body w) ↔
      HandshakeHandled cfg body (w.note (.pkg pkgHandshake body)) := by
  have hconnected : w.transport ≠ none := by simp [ht]
  rw [pkgCb_handshake] at hrun ⊢
  rcases htimer : (w.note (.pkg pkgHandshake body)).handshakeTimer with _ | timer
  · -- `uv_timer_stop` of a timer that was never created
    have hcrash : handshakeResp cfg body (w.note (.pkg pkgHandshake body)) =
        ((w.note (.pkg pkgHandshake body)).halt .crash, true) := by
      rw [handshakeResp, htimer]
    rw [hcrash, if_pos rfl] at hrun
    exact absurd hrun (by simp [World.halt])
  rw [HandshakeHandled]
  rcases hload : cfg.loadb body with _ | res
  · -- no JSON: `pc__pkg_cb` stops the client
    have hresp : handshakeResp cfg body (w.note (.pkg pkgHandshake body)) =
        ({ w.note (.pkg pkgHandshake body) with handshakeTimer := some (uvTimerStop timer) },
          false) := by
      rw [handshakeResp, htimer]
      dsimp only
      rw [hload]
    rw [hresp, if_neg (by simp)] at hrun ⊢
    exact refused_settled_iff hstate hconnected rfl hrun
  dsimp only
  by_cases hcode : jsonIntegerValue (jsonObjectGet (some res) "code") = handshakeOk
  · -- code 200: the answer of `handshake_cb` decides
    rw [if_neg (not_not.mpr hcode)]
    rw [handshakeResp_accepted htimer hload hcode, if_pos rfl] at hrun ⊢
    obtain ⟨newer, hnewer, hnone, hkept⟩ : ∃ newer,
        (handshakeAnswer cfg res (w.note (.pkg pkgHandshake body))).1.trace =
          newer ++ .pkg pkgHandshake body :: w.trace ∧ ¬ Acked newer ∧ _ :=
      handshakeAnswer_trace res _
    have htrace : (handshakeAnswer cfg res (w.note (.pkg pkgHandshake body))).1.trace =
        (newer ++ [.pkg pkgHandshake body]) ++ w.trace := by
      rw [hnewer, List.append_assoc]
      rfl
    have hacked : ¬ Acked (newer ++ [.pkg pkgHandshake body]) := by
      rintro ⟨t', data, hmem⟩
      exact hnone ⟨t', data, by simpa using hmem⟩
    have hstopped : (handshakeAnswer cfg res (w.note (.pkg pkgHandshake body))).1.transport =
        w.transport ∨ Stopped (newer ++ [.pkg pkgHandshake body]) := by
      exact hkept.imp_right fun hstopped => hstopped.append _
    exact accepted_settled_iff hconnected htrace hacked hstopped hrun
  · -- another code is refused like a malformed response
    have hresp : handshakeResp cfg body (w.note (.pkg pkgHandshake body)) =
        ({ w.note (.pkg pkgHandshake body) with handshakeTimer := some (uvTimerStop timer) },
          false) := by
      rw [handshakeResp, htimer]
      dsimp only
      rw [hload]
      dsimp only
      rw [if_pos hcode]
    rw [if_pos hcode]
    rw [hresp, if_neg (by simp)] at hrun ⊢
    exact refused_settled_iff hstate hconnected rfl hrun

end Response

/-- A client that waits for the handshake response. -/
def shakingRun : List (List Bool × Label) :=
  [([], .connect .connect2), ([], .tcpConnect 0 true), ([], .writeDone 0 true)]

theorem handshakeSettled_shakingRun :
    ∃ w, runSteps (plainConfig false) shakingRun plainInit = some w ∧
      (HandshakeSettled w (pkgCb (plainConfig false) pkgHandshake okResponse w) ↔
        HandshakeHandled (plainConfig false) okResponse (w.note (.pkg pkgHandshake okResponse))) := by
  have hrun : ∃ w, runSteps (plainConfig false) shakingRun plainInit = some w ∧
      w.state = .connected ∧ w.transport = some 0 ∧
      (pkgCb (plainConfig false) pkgHandshake okResponse w).halted = none := ⟨_, rfl, rfl, rfl, rfl⟩
  obtain ⟨w, hrun, hstate, ht, hreturns⟩ := hrun
  exact ⟨w, hrun, handshakeSettled_pkgCb hstate ht hreturns⟩

/-- A user who refuses every response. -/
def refusingConfig : Config := { plainConfig false with handshakeCb := some fun _ _ => -1 }

/-- **The user's callback answers `-1`.** Nothing is written and nothing is stopped: the
connection stays open, the client in the state `CONNECTED`, and no timer runs any more. -/
theorem not_handshakeSettled_refusingConfig :
    ∃ w w', runSteps refusingConfig shakingRun plainInit = some w ∧ w.state = .connected ∧
      Reachable refusingConfig w ∧ w' = pkgCb refusingConfig pkgHandshake okResponse w ∧
      w'.halted = none ∧ w'.state = .connected ∧ w'.transport = some 0 ∧
      w'.handshakeTimer.map Timer.active = some false ∧ ¬ HandshakeSettled w w' := by
  have hrun : ∃ w, runSteps refusingConfig shakingRun plainInit = some w ∧ w.state = .connected ∧
      w.transport = some 0 ∧
      (pkgCb refusingConfig pkgHandshake okResponse w).halted = none ∧
      (pkgCb refusingConfig pkgHandshake okResponse w).state = .connected ∧
      (pkgCb refusingConfig pkgHandshake okResponse w).transport = some 0 ∧
      (pkgCb refusingConfig pkgHandshake okResponse w).handshakeTimer.map Timer.active = some false ∧
      ∃ newer, (pkgCb refusingConfig pkgHandshake okResponse w).trace = newer ++ w.trace ∧
        newer = [.handshakeCb, .shook (some 0) (.obj [("code", .int 200)]) none none,
          .pkg pkgHandshake okResponse] :=
    ⟨_, rfl, rfl, rfl, rfl, rfl, rfl, rfl, _, rfl, rfl⟩
  obtain ⟨w, hrun, hstate, -, hreturns, hstays, hopen, hstopped, newer, htrace, rfl⟩ := hrun
  refine ⟨w, _, hrun, hstate, reachable_of_run hrun, rfl, hreturns, hstays, hopen, hstopped, ?_⟩
  rw [handshakeSettled_iff htrace, Acked, Stopped]
  simp

end Libpomelo
