import Libpomelo.Lifecycle

/-!
# A connect attempt is called back exactly once

Without reconnect a client makes at most one attempt. It is pending until the TCP
connect has its result; then it is held in `client->conn_req` until the completion of a
handshake write, or of the ack, takes it and calls back. `Attempt` lists these phases.

The loop cannot end while the attempt is pending. While it is held, a working transport
keeps the loop alive, but that transport is all there is: whoever stops the client in
between closes the transport, both completions then find it dead, and nobody ever calls
back. So each attempt is called back exactly once by the end of the loop in every run in
which, while an attempt is held, only the completions of the handshake's own writes call
`pc_client_stop` (`Unstopped`, `connectCalls_eq_one`).
-/

namespace Libpomelo

/-- The event is a call of the callback of this connect request. -/
def Event.callsConnect (req : ConnReq) : Event → Bool
  | .connectCb r _ => r = req
  | _ => false

/-- How often the callback of a connect request ran. -/
def connectCalls (trace : List Event) (req : ConnReq) : ℕ := trace.countP (Event.callsConnect req)

/-- The event is a call of `pc_client_stop`. -/
def Event.isStop : Event → Bool
  | .stop _ _ => true
  | _ => false

/-- How often `pc_client_stop` was called. -/
def stopCalls (trace : List Event) : ℕ := trace.countP Event.isStop

/-- The attempt is held in `conn_req`: the TCP connect is through, the callback has not
run. -/
def World.Held (w : World) : Prop :=
  w.worker = .looping ∧ w.connects = [] ∧ w.connReq.isSome = true

instance (w : World) : Decidable w.Held :=
  decidable_of_iff (w.worker = .looping ∧ w.connects.isEmpty = true ∧ w.connReq.isSome = true)
    (by rw [World.Held, List.isEmpty_iff])

/-- While the attempt is held, a turn that does not complete a write of the handshake
does not call `pc_client_stop`. -/
def Unstopped (w : World) (l : List Bool × Label) (w' : World) : Prop :=
  w.Held → ¬ l.2.Shakes w → stopCalls w'.trace = stopCalls w.trace

instance (w : World) (l : List Bool × Label) (w' : World) : Decidable (Unstopped w l w') :=
  inferInstanceAs (Decidable (_ → _))

/-- No other attempt was accepted. -/
def OnlyAccepted (trace : List Event) (req : ConnReq) : Prop :=
  ∀ req', .connectAccepted req' ∈ trace → req' = req

/-- Nothing was accepted, called back or started so far. -/
structure World.Fresh (w : World) : Prop where
  connects : w.connects = []
  transport : w.transport = none
  idle : ∀ t, w.working t = false
  accepted : ∀ req, .connectAccepted req ∉ w.trace
  calls : ∀ req, connectCalls w.trace req = 0

/-- An attempt about to be called back. -/
structure World.Due (w : World) (req : ConnReq) : Prop where
  worker : w.worker = .looping
  connects : w.connects = []
  only : OnlyAccepted w.trace req
  calls : connectCalls w.trace req = 0

/-- **The phases of an attempt.** -/
inductive Attempt (w : World) : Prop where
  /-- nothing was accepted yet -/
  | fresh : w.worker = .none → w.Fresh → Attempt w
  /-- the TCP connect is under way -/
  | pending (t : ℕ) (req : ConnReq) : w.worker = .looping → w.connects = [(t, req)] →
      w.connReq = some req → w.transport = none → w.transports[t]? = some .connecting →
      (∀ t, w.working t = false) → OnlyAccepted w.trace req → connectCalls w.trace req = 0 →
      Attempt w
  /-- the handshake is under way -/
  | held (t : ℕ) (req : ConnReq) : w.Due req → w.connReq = some req → w.working t = true →
      Attempt w
  /-- the callback ran -/
  | called (req : ConnReq) : w.worker ≠ .none → w.connects = [] → w.connReq = none →
      OnlyAccepted w.trace req → connectCalls w.trace req = 1 → Attempt w
  /-- nothing runs any more, since before the end of the loop -/
  | halted : w.halted.isSome = true → w.worker = .none ∨ w.worker = .looping → Attempt w

/-! ## What moves do to an attempt -/

section Calm

variable {cfg : Config} {begins : Bool} {w w' w'' : World}

/-- The events and the transports an attempt depends on: no connect is called back or
accepted, no transport is started, and only a call of `pc_client_stop` closes the current
one. -/
structure World.Calm (w w' : World) : Prop where
  calls : ∀ req, connectCalls w'.trace req = connectCalls w.trace req
  accepted : ∀ req, .connectAccepted req ∈ w'.trace → .connectAccepted req ∈ w.trace
  started : ∀ t, w'.working t = true → w.working t = true
  unset : w.transport = none → w'.transport = none ∧ w'.transports = w.transports
  stops : stopCalls w.trace ≤ stopCalls w'.trace
  kept : stopCalls w'.trace = stopCalls w.trace → w'.transports = w.transports

theorem World.Calm.refl (w : World) : w.Calm w :=
  ⟨fun _ => rfl, fun _ => id, fun _ => id, fun h => ⟨h, rfl⟩, le_rfl, fun _ => rfl⟩

theorem World.Calm.trans (h : w.Calm w') (h' : w'.Calm w'') : w.Calm w'' := by
  refine ⟨fun req => (h'.calls req).trans (h.calls req), fun req hacc => h.accepted req (h'.accepted req hacc),
    fun t ht => h.started t (h'.started t ht), ?_, h.stops.trans h'.stops, ?_⟩
  · intro hnone
    obtain ⟨hnone', hsame⟩ := h.unset hnone
    obtain ⟨hnone'', hsame'⟩ := h'.unset hnone'
    exact ⟨hnone'', hsame'.trans hsame⟩
  · intro heq
    have hmid : stopCalls w'.trace = stopCalls w.trace :=
      le_antisymm (heq ▸ h'.stops) h.stops
    exact (h'.kept (heq.trans hmid.symm)).trans (h.kept hmid)

/-- The same transports, and an event that an attempt does not notice. -/
theorem World.Calm.of_cons {e : Event} (htransport : w'.transport = w.transport)
    (htransports : w'.transports = w.transports) (htrace : w'.trace = e :: w.trace)
    (hcalls : ∀ req, e.callsConnect req = false) (haccepted : ∀ req, e ≠ .connectAccepted req) :
    w.Calm w' := by
  refine ⟨?_, ?_, ?_, ?_, ?_, fun _ => htransports⟩
  · intro req
    rw [htrace, connectCalls, List.countP_cons, hcalls req]
    rfl
  · intro req hacc
    rw [htrace] at hacc
    exact List.mem_of_ne_of_mem (haccepted req).symm hacc
  · intro t ht
    rwa [World.working, htransports] at ht
  · intro hnone
    exact ⟨htransport.trans hnone, htransports⟩
  · rw [htrace, stopCalls, stopCalls, List.countP_cons]
    exact Nat.le_add_right _ _

theorem World.Calm.of_eq (htransport : w'.transport = w.transport)
    (htransports : w'.transports = w.transports) (htrace : w'.trace = w.trace) : w.Calm w' := by
  refine ⟨?_, ?_, ?_, fun hnone => ⟨htransport.trans hnone, htransports⟩, ?_, fun _ => htransports⟩
  · intro req
    rw [htrace]
  · intro req hacc
    rwa [htrace] at hacc
  · intro t ht
    rwa [World.working, htransports] at ht
  · rw [htrace]

/-- The client is closed: that took a call of `pc_client_stop`. -/
theorem World.Calm.close {state : ClientState} {reconnecting : Bool}
    (htransport : w'.transport = none)
    (htransports : w'.transports = (dropTransport w).transports)
    (htrace : w'.trace = .closed :: .stop state reconnecting :: w.trace) : w.Calm w' := by
  have hstops : stopCalls w'.trace = stopCalls w.trace + 1 := by
    simp [htrace, stopCalls, List.countP_cons, Event.isStop]
  refine ⟨?_, ?_, ?_, ?_, ?_, ?_⟩
  · intro req
    rw [htrace]
    rfl
  · intro req hacc
    rw [htrace] at hacc
    exact List.mem_of_ne_of_mem (by simp) (List.mem_of_ne_of_mem (by simp) hacc)
  · intro t ht
    rw [World.working, htransports, dropTransport, decide_eq_true_eq] at ht
    dsimp only at ht
    rw [World.working, decide_eq_true_eq]
    split at ht
    · exact ((working_closeSocket _ _ _).1 ht).2
    · exact ht
  · intro hnone
    refine ⟨htransport, ?_⟩
    rw [htransports, dropTransport, hnone]
  · rw [hstops]
    exact Nat.le_succ _
  · intro heq
    rw [hstops] at heq
    exact absurd heq (Nat.succ_ne_self _)

/-- **Moves are calm** without reconnect. -/
theorem Move.calm (h : Move cfg begins w w') (hcfg : cfg.enableReconnect = false) : w.Calm w' := by
  have hno : cfg.enableReconnect ≠ true := by simp [hcfg]
  cases h with
  | inert w' hin _ =>
    rw [hin.eq]
    exact .of_eq rfl rfl rfl
  | shook w' _ _ hin _ _ _ =>
    rw [hin.eq]
    exact .of_cons rfl rfl rfl (fun _ => rfl) (by simp)
  | note e hq =>
    refine .of_cons rfl rfl rfl ?_ ?_
    · intro req
      cases e with
      | connectCb => exact absurd hq id
      | _ => rfl
    · rintro req rfl
      exact hq
  | accept | queueWrite | asyncRequestCb | asyncNotifyCb | sendNotify | release | respond | orphanCb
  | lateCb | disconnect | closeHandled => exact .of_cons rfl rfl rfl (fun _ => rfl) (by simp)
  | notifyDone i write req done working listed =>
    have hdone : w.Calm ({ w with writes := w.writes.eraseIdx i }.note
        (.writeDone write done working listed)) := .of_cons rfl rfl rfl (fun _ => rfl) (by simp)
    exact hdone.trans (.of_cons rfl rfl rfl (fun _ => rfl) (by simp))
  | beginReset hyes _ _ _ => exact absurd hyes hno
  | reset _ hyes _ _ => exact absurd hyes hno
  | close _ _ _ => exact .close rfl rfl rfl
  | _ => exact .of_eq rfl rfl rfl

theorem Moves.calm (h : Moves cfg w w') (hcfg : cfg.enableReconnect = false) : w.Calm w' := by
  obtain ⟨hseq, -⟩ := h
  induction hseq with
  | refl => exact .refl w
  | tail _ hm ih =>
    obtain ⟨_, hm⟩ := hm
    exact ih.trans (hm.calm hcfg)

end Calm

/-! ## Phases -/

section Phases

variable {cfg : Config} {w w' : World} {req : ConnReq}

theorem OnlyAccepted.calm (h : OnlyAccepted w.trace req) (hcalm : w.Calm w') :
    OnlyAccepted w'.trace req :=
  fun req' hacc => h req' (hcalm.accepted req' hacc)

theorem World.Due.calm (h : w.Due req) (hcalm : w.Calm w') (hworker : w'.worker = w.worker)
    (hconnects : w'.connects = w.connects) : w'.Due req :=
  ⟨hworker.trans h.worker, hconnects.trans h.connects, h.only.calm hcalm,
    (hcalm.calls req).trans h.calls⟩

/-- A calm change keeps the phase; a held attempt needs its transport. -/
theorem Attempt.calm (h : Attempt w) (hcalm : w.Calm w') (hworker : w'.worker = w.worker)
    (hconnects : w'.connects = w.connects) (hconnReq : w'.connReq = w.connReq)
    (hhalted : w.halted = none) (hheld : w.Held → w'.transports = w.transports) : Attempt w' := by
  have hidle : (∀ t, w.working t = false) → ∀ t, w'.working t = false := by
    intro hw t
    by_contra hwork
    have hold := hcalm.started t (by simpa using hwork)
    rw [hw t] at hold
    exact absurd hold (by decide)
  cases h with
  | fresh hw hf =>
    refine .fresh (hworker.trans hw) ⟨hconnects.trans hf.connects, (hcalm.unset hf.transport).1,
      hidle hf.idle, ?_, ?_⟩
    · exact fun req hacc => hf.accepted req (hcalm.accepted req hacc)
    · exact fun req => (hcalm.calls req).trans (hf.calls req)
  | pending t req hw hc hreq ht htr hi ha hcalls =>
    refine .pending t req (hworker.trans hw) (hconnects.trans hc) (hconnReq.trans hreq)
      (hcalm.unset ht).1 ?_ (hidle hi) (ha.calm hcalm) ((hcalm.calls req).trans hcalls)
    rw [(hcalm.unset ht).2]
    exact htr
  | held t req hdue hreq hwork =>
    have hsame := hheld ⟨hdue.worker, hdue.connects, by rw [hreq]; rfl⟩
    refine .held t req (hdue.calm hcalm hworker hconnects) (hconnReq.trans hreq) ?_
    rw [World.working, hsame]
    exact hwork
  | called req hw hc hreq ha hcalls =>
    exact .called req (fun hnone => hw (hworker.symm.trans hnone)) (hconnects.trans hc)
      (hconnReq.trans hreq) (ha.calm hcalm) ((hcalm.calls req).trans hcalls)
  | halted hh _ =>
    rw [hhalted] at hh
    exact absurd hh (by decide)

theorem Attempt.moves (h : Attempt w) (hcfg : cfg.enableReconnect = false) (hm : Moves cfg w w')
    (hhalted : w.halted = none) (hheld : w.Held → stopCalls w'.trace = stopCalls w.trace) :
    Attempt w' :=
  h.calm (hm.calm hcfg) hm.framed.worker hm.framed.connects hm.framed.connReq hhalted
    fun hh => (hm.calm hcfg).kept (hheld hh)

theorem World.Due.moves (h : w.Due req) (hcfg : cfg.enableReconnect = false) (hm : Moves cfg w w') :
    w'.Due req :=
  h.calm (hm.calm hcfg) hm.framed.worker hm.framed.connects

/-- The callback runs, and whatever it does, it has run once. -/
theorem attempt_connectCb (h : w.Due req) (hcfg : cfg.enableReconnect = false)
    (hnone : w.connReq = none) (status : ℤ) : Attempt (connectCb cfg req status w) := by
  have hm : Moves cfg (w.note (.connectCb req status)) (connectCb cfg req status w) :=
    moves_connectCb req status w
  have hcalm := hm.calm hcfg
  have honly : OnlyAccepted (w.note (.connectCb req status)).trace req := by
    intro req' hacc
    exact h.only req' (List.mem_of_ne_of_mem (by simp) hacc)
  have hcalls : connectCalls (w.note (.connectCb req status)).trace req = 1 := by
    rw [World.note, connectCalls, List.countP_cons]
    have hzero := h.calls
    rw [connectCalls] at hzero
    simp [hzero, Event.callsConnect]
  refine .called req ?_ (hm.framed.connects.trans h.connects) (hm.framed.connReq.trans hnone)
    (honly.calm hcalm) ((hcalm.calls req).trans hcalls)
  rw [hm.framed.worker]
  change w.worker ≠ .none
  rw [h.worker]
  decide

/-- The error path of the connect handler calls back, unless nothing runs any more. -/
theorem attempt_connectError {f : Failure} (h : w.Due req) (hcfg : cfg.enableReconnect = false)
    (hf : f ≠ .heartbeatTimeout) : Attempt (connectError cfg f req w) := by
  rw [connectError, World.andThen]
  have hm : Moves cfg { w with connReq := none } (failWith cfg f { w with connReq := none }) :=
    moves_failWith hf _
  have hdue : { w with connReq := none }.Due req := ⟨h.worker, h.connects, h.only, h.calls⟩
  split
  · next hhalt => exact .halted hhalt (.inr (hdue.moves hcfg hm).worker)
  · exact attempt_connectCb (hdue.moves hcfg hm) hcfg hm.framed.connReq (-1)

/-- Taking the attempt out of `conn_req` calls it back. -/
theorem attempt_finishConnect (h : w.Due req) (hcfg : cfg.enableReconnect = false)
    (hreq : w.connReq = some req) (status : ℤ) : Attempt (finishConnect cfg status w) := by
  rw [finishConnect, hreq]
  have hdue : { w with connReq := none }.Due req := ⟨h.worker, h.connects, h.only, h.calls⟩
  exact attempt_connectCb hdue hcfg rfl status

end Phases

/-! ## The handlers -/

section Handlers

variable {cfg : Config} {w w' : World} {req : ConnReq}

/-- Writing the handshake request leaves the transports alone. -/
theorem handshakeReq_transports (w : World) : (handshakeReq cfg w).1.transports = w.transports := by
  have hload : (loadProtoVer w).transports = w.transports := by
    rw [loadProtoVer]
    split <;> rfl
  have hcases := handshakeReq_cases cfg w
  generalize handshakeReq cfg w = r at hcases ⊢
  cases hcases <;> exact hload

/-- Writing the handshake request is calm, and leaves the attempt as it is. -/
theorem calm_handshakeReq (w : World) : w.Calm (handshakeReq cfg w).1 ∧
    (handshakeReq cfg w).1.worker = w.worker ∧ (handshakeReq cfg w).1.connects = w.connects ∧
    (handshakeReq cfg w).1.connReq = w.connReq := by
  have hload : w.Calm (loadProtoVer w) ∧ (loadProtoVer w).worker = w.worker ∧
      (loadProtoVer w).connects = w.connects ∧ (loadProtoVer w).connReq = w.connReq := by
    rw [loadProtoVer]
    split <;> exact ⟨.of_eq rfl rfl rfl, rfl, rfl, rfl⟩
  obtain ⟨hcalm, hsame⟩ := hload
  have hcases := handshakeReq_cases cfg w
  generalize loadProtoVer w = w₁ at hcalm hsame hcases
  generalize handshakeReq cfg w = r at hcases ⊢
  cases hcases with
  | failed | crashed => exact ⟨hcalm.trans (.of_eq rfl rfl rfl), hsame⟩
  | stranded t data supply =>
    exact ⟨hcalm.trans (.of_cons (e := .wrote ⟨.handshakeReq, t, some data⟩) rfl rfl rfl
      (fun _ => rfl) (by simp)), hsame⟩
  | queued t data supply =>
    have hwrote : w₁.Calm (queueWrite .handshakeReq t (some data) { w₁ with supply := supply }) :=
      .of_cons (e := .wrote ⟨.handshakeReq, t, some data⟩) rfl rfl rfl (fun _ => rfl) (by simp)
    refine ⟨(hcalm.trans hwrote).trans ?_, hsame⟩
    exact .of_cons (e := .announced w₁.protoVer) rfl rfl rfl (fun _ => rfl) (by simp)

/-- The result of the TCP connect: the attempt is called back or held. -/
theorem attempt_onTcpConnect {t : ℕ} (h : w.Due req) (hcfg : cfg.enableReconnect = false)
    (hreq : w.connReq = some req) (htransport : w.transports[t]? = some .connecting) (status : ℤ) :
    Attempt (onTcpConnect cfg t req status w) := by
  rw [onTcpConnect]
  split
  · have hdue : { w with connReq := none }.Due req := ⟨h.worker, h.connects, h.only, h.calls⟩
    exact attempt_connectCb hdue hcfg rfl (-1)
  · split
    · have hdue : (transportDestroy t w).Due req := ⟨h.worker, h.connects, h.only, h.calls⟩
      exact attempt_connectError hdue hcfg (by decide)
    · dsimp only
      split
      · have hdue : { w with transport := some t }.Due req :=
          ⟨h.worker, h.connects, h.only, h.calls⟩
        exact attempt_connectError hdue hcfg (by decide)
      · -- the transport starts, and the handshake request is written
        have hdue : (transportStart t
            { w with transport := some t, state := .connected }).Due req :=
          ⟨h.worker, h.connects, h.only, h.calls⟩
        have hwork : (transportStart t
            { w with transport := some t, state := .connected }).working t = true := by
          rw [World.working, transportStart, decide_eq_true_eq]
          change (if w.transports[t]? = some .connecting then w.transports.set t .working
            else w.transports)[t]? = _
          rw [if_pos htransport]
          exact List.getElem?_set_self (List.getElem?_eq_some_iff.1 htransport).1
        have hreq' : (transportStart t
            { w with transport := some t, state := .connected }).connReq = some req :=
          hreq
        generalize transportStart t
          { w with transport := some t, state := .connected } = w₁ at hdue hwork hreq'
        obtain ⟨hcalm, hworker, hconnects, hconnReq⟩ := @calm_handshakeReq cfg w₁
        have hsame : (handshakeReq cfg w₁).1.transports = w₁.transports := handshakeReq_transports w₁
        have hdue' := hdue.calm hcalm hworker hconnects
        split
        · next w₂ h₂ =>
          rw [h₂] at hconnReq hsame hdue'
          refine .held t req hdue' (hconnReq.trans hreq') ?_
          rw [World.working, hsame]
          exact hwork
        · next w₂ h₂ =>
          rw [h₂] at hdue'
          rw [World.andThen]
          split
          · next hhalt => exact .halted hhalt (.inr hdue'.worker)
          · exact attempt_connectError hdue' hcfg (by decide)

/-- A completion of a handshake write leaves the attempt alone or takes it. -/
theorem Attempt.finish (h : Attempt w) (hcfg : cfg.enableReconnect = false)
    (hworker : w.worker = .looping) (hwork : ∃ t, w.working t = true) (hhalted : w.halted = none)
    (hm : w.Calm w') (hworker' : w'.worker = w.worker) (hconnects : w'.connects = w.connects)
    (hconnReq : w'.connReq = w.connReq) (status : ℤ) : Attempt (finishConnect cfg status w') := by
  obtain ⟨t, hwork⟩ := hwork
  cases h with
  | fresh hw _ =>
    rw [hworker] at hw
    exact absurd hw (by decide)
  | pending _ _ _ _ _ _ _ hidle _ _ =>
    rw [hidle t] at hwork
    exact absurd hwork (by decide)
  | held _ req hdue hreq _ =>
    exact attempt_finishConnect (hdue.calm hm hworker' hconnects) hcfg (hconnReq.trans hreq) status
  | called req hw hc hreq ha hcalls =>
    rw [finishConnect, hconnReq.trans hreq]
    exact .called req (fun hnone => hw (hworker'.symm.trans hnone)) (hconnects.trans hc)
      (hconnReq.trans hreq) (ha.calm hm) ((hm.calls req).trans hcalls)
  | halted hh _ =>
    rw [hhalted] at hh
    exact absurd hh (by decide)

theorem attempt_handshakeReqCb {t : ℕ} (h : Attempt w) (hcfg : cfg.enableReconnect = false)
    (hworker : w.worker = .looping) (hhalted : w.halted = none) (status : ℤ) :
    Attempt (handshakeReqCb cfg t status w) := by
  rw [handshakeReqCb]
  split
  · exact h
  · next hwork =>
    split
    · have hm : Moves cfg w (failWith cfg .handshakeReqWrite w) := moves_failWith (by decide) w
      exact h.finish hcfg hworker ⟨t, by simpa using hwork⟩ hhalted (hm.calm hcfg) hm.framed.worker
        hm.framed.connects hm.framed.connReq status
    · exact h

theorem attempt_handshakeAckCb {t : ℕ} (h : Attempt w) (hcfg : cfg.enableReconnect = false)
    (hworker : w.worker = .looping) (hhalted : w.halted = none) (status : ℤ) :
    Attempt (handshakeAckCb cfg t status w) := by
  rw [handshakeAckCb]
  split
  · exact h
  · next hwork =>
    have hwork' : ∃ t, w.working t = true := ⟨t, by simpa using hwork⟩
    dsimp only
    split
    · have hm : Moves cfg w (failWith cfg .handshakeAckWrite w) := moves_failWith (by decide) w
      exact h.finish hcfg hworker hwork' hhalted (hm.calm hcfg) hm.framed.worker
        hm.framed.connects hm.framed.connReq status
    · have hcalm : w.Calm ({ w with state := .working }.note (.acked w.state)) :=
        .of_cons rfl rfl rfl (fun _ => rfl) (by simp)
      exact h.finish hcfg hworker hwork' hhalted hcalm rfl rfl rfl status

/-- `pc_connect` fails and leaves nothing behind that counts, or accepts. -/
theorem pcConnect_fresh (cb : ConnectCb) (h : w.Fresh) (hworker : w.worker = .none) :
    (pcConnect cb w).2 = false ∧ (Attempt (pcConnect cb w).1) ∨
    (pcConnect cb w).2 = true ∧
      ∀ user, Attempt { (pcConnect cb w).1 with worker := .looping, user := user } := by
  obtain ⟨hc, ht, hidle, ha, hcalls⟩ := h
  have hcases := pcConnect_cases cb w
  generalize pcConnect cb w = r at hcases ⊢
  cases hcases with
  | invalid => exact .inl ⟨rfl, .fresh hworker ⟨hc, ht, hidle, ha, hcalls⟩⟩
  | refused => exact .inl ⟨rfl, .fresh hworker ⟨hc, ht, hidle, ha, hcalls⟩⟩
  | crashed => exact .inl ⟨rfl, .halted rfl (.inl hworker)⟩
  | notConnected =>
    -- the transport stays in the list, but it never works
    refine .inl ⟨rfl, .fresh hworker ⟨hc, ht, ?_, ha, hcalls⟩⟩
    intro t
    have hold := hidle t
    simp only [World.working, decide_eq_false_iff_not] at hold ⊢
    exact fun hwork => hold ((getElem?_concat_ne (by decide) t).1 hwork)
  | launched =>
    refine .inr ⟨rfl, fun user => ?_⟩
    refine .pending w.transports.length ⟨w.nextConn, cb⟩ rfl ?_ rfl ht ?_ ?_ ?_ (hcalls _)
    · change w.connects ++ [(w.transports.length, _)] = _
      rw [hc]
      rfl
    · exact List.getElem?_concat_length
    · intro t
      have hold := hidle t
      simp only [World.working, decide_eq_false_iff_not] at hold ⊢
      exact fun hwork => hold ((getElem?_concat_ne (by decide) t).1 hwork)
    · intro req' hacc
      rcases List.mem_cons.1 hacc with heq | hold
      · exact Event.connectAccepted.inj heq
      · exact absurd hold (ha req')

/-- A connect call is accepted, or leaves nothing behind that counts. -/
theorem attempt_clientConnect (call : ConnectCall) (h : Attempt w) (hworker : w.worker = .none)
    (hhalted : w.halted = none) : Attempt (clientConnect call w) := by
  have hfresh : w.Fresh := by
    -- without a worker there was no attempt yet
    cases h with
    | fresh _ hf => exact hf
    | pending _ _ hw _ _ _ _ _ _ _ => exact absurd (hworker.symm.trans hw) (by decide)
    | held _ _ hdue _ _ => exact absurd (hworker.symm.trans hdue.worker) (by decide)
    | called _ hw _ _ _ _ => exact absurd hworker hw
    | halted hh _ =>
      rw [hhalted] at hh
      exact absurd hh (by decide)
  obtain ⟨host, supply, heq⟩ := connectPrepare_eq call w
  have hprep : (connectPrepare call w).1.Fresh := by
    rw [heq]
    exact ⟨hfresh.connects, hfresh.transport, hfresh.idle, hfresh.accepted, hfresh.calls⟩
  have hworker' : (connectPrepare call w).1.worker = .none := by
    rw [heq]
    exact hworker
  rw [clientConnect]
  split
  · next w₁ h₁ =>
    rw [h₁] at hprep hworker'
    exact .fresh hworker' hprep
  · next w₁ h₁ =>
    rw [h₁] at hprep hworker'
    rcases pcConnect_fresh call.cb hprep hworker' with ⟨hno, hatt⟩ | ⟨hyes, hatt⟩
    · split
      · next h₂ =>
        rw [h₂] at hatt
        exact hatt
      · next h₂ =>
        rw [h₂] at hno
        exact absurd hno (by simp)
    · split
      · next h₂ =>
        rw [h₂] at hyes
        exact absurd hyes (by simp)
      · next h₂ =>
        rw [h₂] at hatt
        exact hatt _

end Handlers

/-! ## Turns -/

section Turns

variable {cfg : Config} {w w' : World}

/-- Only a called attempt survives the loop. -/
theorem Attempt.ended {worker : Worker} (h : Attempt w) (hworker : w.worker = worker)
    (hnone : worker ≠ .none) (hlooping : worker ≠ .looping) :
    ∃ req, w.connects = [] ∧ w.connReq = none ∧ OnlyAccepted w.trace req ∧
      connectCalls w.trace req = 1 := by
  cases h with
  | fresh hw _ => exact absurd (hworker.symm.trans hw) hnone
  | pending _ _ hw _ _ _ _ _ _ _ => exact absurd (hworker.symm.trans hw) hlooping
  | held _ _ hdue _ _ => exact absurd (hworker.symm.trans hdue.worker) hlooping
  | called req _ hc hreq ha hcalls => exact ⟨req, hc, hreq, ha, hcalls⟩
  | halted _ hearly =>
    rw [hworker] at hearly
    exact absurd hearly (not_or.2 ⟨hnone, hlooping⟩)

/-- The worker goes on after the loop. -/
theorem Attempt.tail {worker worker' : Worker} (h : Attempt w) (hcfg : cfg.enableReconnect = false)
    (hworker : w.worker = worker) (hnone : worker ≠ .none)
    (hlooping : worker ≠ .looping) (hm : Moves cfg w w') (hnone' : worker' ≠ .none) :
    Attempt { w' with worker := worker' } := by
  obtain ⟨req, hc, hreq, ha, hcalls⟩ := h.ended hworker hnone hlooping
  have hcalm := hm.calm hcfg
  have honly : OnlyAccepted w'.trace req := ha.calm hcalm
  exact .called req hnone' (hm.framed.connects.trans hc) (hm.framed.connReq.trans hreq) honly
    ((hcalm.calls req).trans hcalls)

/-- The user's thread and the end of a read handler do not matter. -/
theorem Attempt.aside (h : Attempt w) (pc : UserPc) (reading : Option ℕ) :
    Attempt { w with user := pc, reading := reading } := by
  cases h with
  | fresh hw hf => exact .fresh hw ⟨hf.connects, hf.transport, hf.idle, hf.accepted, hf.calls⟩
  | pending t req hw hc hreq ht htr hidle ha hcalls =>
    exact .pending t req hw hc hreq ht htr hidle ha hcalls
  | held t req hdue hreq hwork =>
    exact .held t req ⟨hdue.worker, hdue.connects, hdue.only, hdue.calls⟩ hreq hwork
  | called req hw hc hreq ha hcalls => exact .called req hw hc hreq ha hcalls
  | halted hh hearly => exact .halted hh hearly

/-- The loop does not end under an attempt. -/
theorem Attempt.loopEnd (h : Attempt w) (hhalted : w.halted = none) (hidle : loopIdle w = true)
    (hworker : w.worker = .looping) : Attempt { w with worker := .ended, state := .closed } := by
  cases h with
  | fresh hw _ => exact absurd (hworker.symm.trans hw) (by decide)
  | pending t req _ hc _ _ _ _ _ _ =>
    simp only [loopIdle, Bool.and_eq_true, hc] at hidle
    exact absurd hidle.1.1.1.1.1.1.1.2 (by simp)
  | held t req _ _ hwork =>
    rw [not_working_of_loopIdle hidle t] at hwork
    exact absurd hwork (by decide)
  | called req _ hc hreq ha hcalls => exact .called req (by simp) hc hreq ha hcalls
  | halted hh _ =>
    rw [hhalted] at hh
    exact absurd hh (by decide)

/-- **One turn.** -/
theorem Turn.attempt {l : Label} (h : Turn cfg w l w') (hcfg : cfg.enableReconnect = false)
    (hhalted : w.halted = none) (htimer : w.reconnectTimer.active = false)
    (hok : w.Held → ¬ l.Shakes w → stopCalls w'.trace = stopCalls w.trace) (hw : Attempt w) :
    Attempt w' := by
  cases h with
  | moves hl hm => exact hw.moves hcfg hm hhalted fun hheld => hok hheld hl
  | read t hl _ hm =>
    have hstart : Attempt ({ w with reading := some t }.note (.read t)) :=
      hw.calm (.of_cons rfl rfl rfl (fun _ => rfl) (by simp)) rfl rfl rfl hhalted fun _ => rfl
    exact (hstart.moves hcfg hm hhalted fun hheld => hok hheld hl).aside _ none
  | tcpConnect i ok t req hworker hi _ =>
    cases hw with
    | fresh hnone _ => exact absurd (hworker.symm.trans hnone) (by decide)
    | pending t₀ req₀ _ hc hreq _ htr _ ha hcalls =>
      -- the only connect that is pending is the one of the request
      have hsingle : i = 0 ∧ t = t₀ ∧ req = req₀ := by
        rw [hc, List.getElem?_singleton] at hi
        simpa [eq_comm] using hi
      obtain ⟨rfl, rfl, rfl⟩ := hsingle
      have hdue : { w with connects := w.connects.eraseIdx 0 }.Due req := by
        refine ⟨hworker, ?_, ha, hcalls⟩
        rw [hc]
        rfl
      exact attempt_onTcpConnect hdue hcfg hreq htr _
    | held _ _ hdue _ _ =>
      rw [hdue.connects] at hi
      exact absurd hi (by simp)
    | called _ _ hc _ _ _ =>
      rw [hc] at hi
      exact absurd hi (by simp)
    | halted hh _ =>
      rw [hhalted] at hh
      exact absurd hh (by decide)
  | handshakeReq i ok write working listed hworker _ _ =>
    have hnoted : Attempt ({ w with writes := w.writes.eraseIdx i }.note
        (.writeDone write (uvStatus ok) working listed)) :=
      hw.calm (.of_cons rfl rfl rfl (fun _ => rfl) (by simp)) rfl rfl rfl hhalted fun _ => rfl
    exact attempt_handshakeReqCb hnoted hcfg hworker hhalted _
  | handshakeAck i ok write working listed hworker _ _ =>
    have hnoted : Attempt ({ w with writes := w.writes.eraseIdx i }.note
        (.writeDone write (uvStatus ok) working listed)) :=
      hw.calm (.of_cons rfl rfl rfl (fun _ => rfl) (by simp)) rfl rfl rfl hhalted fun _ => rfl
    exact attempt_handshakeAckCb hnoted hcfg hworker hhalted _
  | reconnectTimer _ hact =>
    -- it is never armed without `enable_reconnect`
    rw [htimer] at hact
    exact absurd hact (by decide)
  | connect call _ hworker => exact attempt_clientConnect call hw hworker hhalted
  | loopEnd hidle hworker => exact hw.loopEnd hhalted hidle hworker
  | tailEmit hworker hm => exact hw.tail hcfg hworker (by decide) (by decide) hm (by decide)
  | tailExit hworker hm _ => exact hw.tail hcfg hworker (by decide) (by decide) hm (by decide)
  | user pc hl hm _ =>
    exact (hw.moves hcfg hm hhalted fun hheld => hok hheld hl).aside pc _
  | join pc _ hworker _ =>
    have hjoin : Attempt { w with worker := .joined } := by
      rcases hworker with hworker | hworker
      · exact hw.tail hcfg hworker (by decide) (by decide) .refl (by decide)
      · exact hw.tail hcfg hworker (by decide) (by decide) .refl (by decide)
    have hnoted : Attempt ({ w with worker := .joined }.note .joined) :=
      hjoin.calm (.of_cons rfl rfl rfl (fun _ => rfl) (by simp)) rfl rfl rfl hhalted fun _ => rfl
    exact hnoted.aside pc _
  | joinNone pc _ hworker _ => exact .halted rfl (.inl hworker)
  | free _ =>
    have hm : Moves cfg w _ := moves_requestsClear w.requests.length w
    rw [clientFree] at hok ⊢
    generalize requestsClear (releaseRequest cfg) w.requests.length w = w₁ at hm hok ⊢
    rw [World.andThen] at hok ⊢
    split at hok
    · next hhalt =>
      rw [if_pos hhalt]
      exact hw.moves hcfg hm hhalted fun hheld => hok hheld id
    · next hrun =>
      rw [if_neg hrun]
      have hclear := hw.moves hcfg hm hhalted fun hheld => hok hheld id
      have hhalted' : w₁.halted = none := by simpa using hrun
      exact hclear.calm (.of_eq rfl rfl rfl) rfl rfl rfl hhalted' fun _ => rfl

end Turns

/-! ## Runs -/

/-- Without reconnect the reconnect timer is never armed. -/
theorem Link.timer {cfg : Config} {w w' : World} (h : Link cfg w w')
    (hcfg : cfg.enableReconnect = false) (hw : w.reconnectTimer.active = false) :
    w'.reconnectTimer.active = false := by
  cases h with
  | move hm =>
    cases hm with
    | inert w' hin _ =>
      rw [hin.eq]
      exact hw
    | shook w' _ _ hin _ _ _ =>
      rw [hin.eq]
      exact hw
    | reset _ hyes _ _ =>
      rw [hcfg] at hyes
      exact absurd hyes (by decide)
    | fireTimer hact =>
      rw [hw] at hact
      exact absurd hact (by decide)
    | stopTimer => rfl
    | close _ _ _ =>
      simp only [hcfg]
      exact hw
    | _ => exact hw
  | _ => exact hw

theorem kept_timer {cfg : Config} (hcfg : cfg.enableReconnect = false) :
    Kept cfg fun w => w.reconnectTimer.active = false where
  init _ _ := rfl
  link _ _ hw hlink := hlink.timer hcfg hw
  threads _ _ _ _ hw := hw
  start _ _ hw _ _ := hw
  finish _ hw := hw
  loopEnd _ hw _ := hw

theorem reach_attempt {cfg : Config} {w : World} (hcfg : cfg.enableReconnect = false)
    (h : (clientLts cfg).Reach Unstopped w) : Attempt w := by
  apply h.invariant (P := Attempt)
  · rintro _ ⟨reqId, files, -, rfl⟩
    exact .fresh rfl ⟨rfl, rfl, fun _ => rfl, fun _ => List.not_mem_nil, fun _ => rfl⟩
  · intro w l w' hr hw hstep hok
    have hhalted : w.halted = none := step_halted hstep
    have hw₀ : Attempt { w with supply := l.1 } :=
      hw.calm (.of_eq rfl rfl rfl) rfl rfl rfl hhalted fun _ => rfl
    have htimer : w.reconnectTimer.active = false := (kept_timer hcfg).reach hr
    exact (step_turn (reach_reading hr) hstep).attempt hcfg hhalted htimer hok hw₀

/-- **Exactly one call.** In every run of a client without reconnect in which nothing but
the completions of the handshake's writes calls `pc_client_stop` while the attempt is
held, each accepted attempt has been called back exactly once by the end of the loop. -/
theorem connectCalls_eq_one {cfg : Config} {w : World} {req : ConnReq}
    (hcfg : cfg.enableReconnect = false) (h : (clientLts cfg).Reach Unstopped w)
    (hended : w.worker ≠ .none ∧ w.worker ≠ .looping)
    (hacc : .connectAccepted req ∈ w.trace) : connectCalls w.trace req = 1 := by
  obtain ⟨req', -, -, honly, hcalls⟩ := (reach_attempt hcfg h).ended rfl hended.1 hended.2
  rw [honly req hacc]
  exact hcalls

/-- A client that connects and is disconnected. -/
def connectedRun : List (List Bool × Label) :=
  plainStart ++ [([], .disconnectSet), ([], .disconnectSend), ([], .closeAsync), ([], .loopEnd)]

/-- Its attempt is called back once. -/
theorem connectCalls_connectedRun :
    ∃ w, runSteps (plainConfig false) connectedRun plainInit = some w ∧ w.worker = .ended ∧
      .connectAccepted ⟨0, .user⟩ ∈ w.trace ∧ connectCalls w.trace ⟨0, .user⟩ = 1 := by
  have hrun : ∃ w, runSteps (plainConfig false) connectedRun plainInit = some w ∧
      w.worker = .ended ∧ w.trace.getLast? = some (.connectAccepted ⟨0, .user⟩) := ⟨_, rfl, rfl, rfl⟩
  obtain ⟨w, hrun, hworker, hlast⟩ := hrun
  have hok : RunMeets (plainConfig false) Unstopped connectedRun plainInit := by decide +kernel
  have hreach := reach_of_runSteps connectedRun reach_plainInit hok hrun
  have hacc : .connectAccepted ⟨0, .user⟩ ∈ w.trace := List.mem_of_getLast? hlast
  have hended : w.worker ≠ .none ∧ w.worker ≠ .looping := by
    rw [hworker]
    decide
  exact ⟨w, hrun, hworker, hacc, connectCalls_eq_one rfl hreach hended hacc⟩

/-- A client that is stopped while its handshake request is being written. -/
def droppedRun : List (List Bool × Label) :=
  [([], .connect .connect2), ([], .tcpConnect 0 true), ([], .call .stop), ([], .writeDone 0 false),
    ([], .loopEnd)]

/-- Its attempt is never called back. -/
theorem connectCalls_droppedRun :
    ∃ w, runSteps (plainConfig false) droppedRun plainInit = some w ∧
      Reachable (plainConfig false) w ∧ w.worker = .ended ∧
      .connectAccepted ⟨0, .user⟩ ∈ w.trace ∧ connectCalls w.trace ⟨0, .user⟩ ≠ 1 := by
  have hrun : ∃ w, runSteps (plainConfig false) droppedRun plainInit = some w ∧
      w.worker = .ended ∧ w.trace.getLast? = some (.connectAccepted ⟨0, .user⟩) ∧
      connectCalls w.trace ⟨0, .user⟩ = 0 := ⟨_, rfl, rfl, rfl, rfl⟩
  obtain ⟨w, hrun, hworker, hlast, hzero⟩ := hrun
  refine ⟨w, hrun, reachable_of_run hrun, hworker, List.mem_of_getLast? hlast, ?_⟩
  rw [hzero]
  decide

end Libpomelo
