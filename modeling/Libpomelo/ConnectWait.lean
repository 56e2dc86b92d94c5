import Libpomelo.Turns

/-!
# Waiting for the first connection

`pc_client_connect` starts the worker and then waits on a condition, without looking at
anything. Two places broadcast: `pc__client_connected_cb`, the callback of the first connect
request, and the end of the worker. So the caller comes back if

* the result is not there before it waits, since a broadcast wakes only who is waiting, and
* the ack that makes the client `WORKING` belongs to the first connect request: the callback of
  a reconnect broadcasts nothing.

Runs that meet both (`Punctual`) never leave the caller blocked for good (`not_stuck`).
-/

namespace Libpomelo

/-- The write is the ack. -/
def WriteCb.isAck : WriteCb → Bool
  | .handshakeAck => true
  | _ => false

/-- The label completes the ack, on a transport that works. -/
def Label.acks (w : World) : Label → Bool
  | .writeDone i ok =>
    ok && w.writes[i]?.any fun write => write.cb.isAck && w.working write.transport
  | _ => false

/-- The label is the last step of the worker, its broadcast. -/
def Label.exits (w : World) : Label → Bool
  | .workerTail => w.worker = .emitted
  | _ => false

/-- The connect request in `conn_req` is the one of `pc_client_connect`. -/
def World.firstPending (w : World) : Bool := w.connReq.any fun req => req.cb = .connected

/-- The result of `pc_client_connect` does not come before its caller waits, and when the client
becomes `WORKING` while it waits, that is by the first connect request. -/
def Punctual (w : World) (l : List Bool × Label) (_ : World) : Prop :=
  (w.user = .connectWait → l.2.acks w = false ∧ l.2.exits w = false) ∧
    (w.user = .waiting → l.2.acks w = true → w.firstPending = true)

instance (w : World) (l : List Bool × Label) (w' : World) : Decidable (Punctual w l w') :=
  inferInstanceAs (Decidable (_ ∧ _))

/-- **The caller is stuck**: it is blocked in `pc__cond_wait` while the client is `WORKING` and
no connect callback is outstanding, or while the worker is over. -/
def World.Stuck (w : World) : Prop :=
  w.user = .waiting ∧
    (w.state = .working ∧ w.connReq = none ∧ w.connects = [] ∨
      w.worker = .exited ∨ w.worker = .joined)

/-- The caller of `pc_client_connect` waits, or is about to. -/
def World.Awaits (w : World) : Prop := w.user = .connectWait ∨ w.user = .waiting

/-- **There is something to wait for**, as long as the caller waits. -/
structure World.Hopeful (w : World) : Prop where
  /-- the connection is not there yet -/
  state : w.Awaits → w.state ≠ .working
  /-- and the worker is not over -/
  worker : w.Awaits → w.worker ≠ .exited ∧ w.worker ≠ .joined

/-! ## Who makes the client `WORKING` -/

/-- The client is not `WORKING`. -/
def World.Unready (w : World) : Prop := w.state ≠ .working

section Working

variable {cfg : Config} {begins : Bool} {w w' : World}

theorem Move.unready (h : Move cfg begins w w') (hw : w.Unready) : w'.Unready := by
  cases h with
  | inert w' hin _ =>
    rw [hin.eq]
    exact hw
  | shook w' _ _ hin _ _ _ =>
    rw [hin.eq]
    exact hw
  | reset | closeInited | close | disconnect => simp [World.Unready, World.note, disconnectSet]
  | _ => exact hw

theorem enduring_unready : Enduring cfg World.Unready where
  move _ _ _ hw hm := hm.unready hw
  taken _ hw := hw
  calledBack _ _ _ hw := hw

theorem unready_pcConnect (cb : ConnectCb) (hw : w.Unready) : (pcConnect cb w).1.Unready := by
  have hcases := pcConnect_cases cb w
  generalize pcConnect cb w = r at hcases ⊢
  cases hcases with
  | invalid => exact hw
  | refused | crashed | notConnected | launched =>
    simp [World.Unready, World.halt, World.note, setConnReq]

theorem unready_onTcpConnect (t : ℕ) (req : ConnReq) (status : ℤ) (hw : w.Unready) :
    (onTcpConnect cfg t req status w).Unready := by
  have hP : Enduring cfg World.Unready := enduring_unready
  rw [onTcpConnect]
  split
  · exact hP.connectCb (hP.taken w hw) req (-1)
  · split
    · have hdestroy : (transportDestroy t w).Unready := hw
      exact hP.connectError hdestroy (by decide) req
    · dsimp only
      split
      · have hset : ({ w with transport := some t } : World).Unready := hw
        exact hP.connectError hset (by decide) req
      · have hstart : (transportStart t { w with transport := some t, state := .connected }).Unready := by
          simp [World.Unready, transportStart]
        have hreq := hP.handshakeReq hstart req fun _ _ _ hv _ _ => hv
        split
        · next heq =>
          rw [heq] at hreq
          exact hreq.1
        · next heq =>
          rw [heq] at hreq
          exact hreq.2

theorem unready_reconnectTimer (hw : w.Unready) : (clientReconnectTimerCb cfg w).Unready := by
  have hP : Enduring cfg World.Unready := enduring_unready
  have hatt : (reconnectAttempt w).1.Unready := by
    obtain ⟨supply, heq | ⟨-, heq⟩⟩ := reconnectAttempt_cases w
    · rw [heq]
      exact hw
    · rw [heq]
      exact unready_pcConnect .reconnected hw
  rw [clientReconnectTimerCb]
  split
  · next heq =>
    rw [heq] at hatt
    exact hatt
  · next heq =>
    rw [heq] at hatt
    exact hP.moves (moves_attemptFailed _) hatt

end Working

/-! ## Turns -/

section Turns

variable {cfg : Config} {w w' : World}

/-- The worker's handlers do not move the user's thread, except to wake it. -/
theorem World.Hopeful.of_unready (h : w.Hopeful) (hunready : w.Unready → w'.Unready)
    (hworker : w'.worker = w.worker) (huser : w'.user = w.user ∨ w'.user = .woken) : w'.Hopeful := by
  have hbefore : w'.Awaits → w.Awaits := by
    intro hawaits
    rcases huser with huser | huser
    · rw [World.Awaits, huser] at hawaits
      exact hawaits
    · rw [World.Awaits, huser] at hawaits
      exact absurd hawaits (by decide)
  refine ⟨fun hawaits => hunready (h.state (hbefore hawaits)), fun hawaits => ?_⟩
  rw [hworker]
  exact h.worker (hbefore hawaits)

theorem World.Hopeful.moves (h : w.Hopeful) (hm : Moves cfg w w') : w'.Hopeful :=
  h.of_unready (enduring_unready.moves hm) hm.framed.worker (hm.framed.user.imp_right And.right)

theorem World.Hopeful.links (h : w.Hopeful) (hl : Links cfg w w') (hunready : w.Unready → w'.Unready) :
    w'.Hopeful :=
  h.of_unready hunready hl.threads.1 hl.threads.2

/-- Somebody who does not wait has nothing to lose. -/
theorem World.Hopeful.of_not_awaits (h : ¬ w.Awaits) : w.Hopeful :=
  ⟨fun hawaits => absurd hawaits h, fun hawaits => absurd hawaits h⟩

/-- **The ack of the first connect request** wakes the caller. -/
theorem handshakeAckCb_wakes {t : ℕ} {status : ℤ} (hwork : w.working t = true) (hstatus : status ≠ -1)
    (hfirst : w.firstPending = true) (hwait : w.user = .waiting) :
    (handshakeAckCb cfg t status w).user = .woken := by
  obtain ⟨req, hreq, hcb⟩ : ∃ req, w.connReq = some req ∧ req.cb = .connected := by
    rw [World.firstPending] at hfirst
    cases hconn : w.connReq with
    | none =>
      rw [hconn] at hfirst
      exact absurd hfirst (by decide)
    | some req =>
      rw [hconn] at hfirst
      exact ⟨req, rfl, by simpa using hfirst⟩
  rw [handshakeAckCb, if_neg (by simp [hwork])]
  dsimp only
  rw [if_neg hstatus, finishConnect]
  simp only [World.note, hreq, connectCb, hcb]
  rw [if_neg hstatus, condBroadcast, if_pos hwait]
  rfl

/-- **The completion of the ack.** -/
theorem World.Hopeful.ack {i : ℕ} {ok : Bool} {write : Write} {working listed : Bool}
    {l : List Bool} {w' : World} (h : w.Hopeful) (hi : w.writes[i]? = some write)
    (hcb : write.cb = .handshakeAck) (hok : Punctual w (l, .writeDone i ok) w') :
    (handshakeAckCb cfg write.transport (uvStatus ok) ({ w with writes := w.writes.eraseIdx i }.note
      (.writeDone write (uvStatus ok) working listed))).Hopeful := by
  have hlinks : Links cfg w _ := links_turn_handshakeAck ok working listed hi hcb
  have hacks : Label.acks w (.writeDone i ok) = (ok && w.working write.transport) := by
    simp [Label.acks, hi, hcb, WriteCb.isAck]
  by_cases hack : (ok && w.working write.transport) = true
  · -- the client becomes `WORKING`
    obtain ⟨rfl, hwork⟩ := Bool.and_eq_true_iff.1 hack
    refine .of_not_awaits ?_
    intro hawaits
    have hbefore : w.user = .connectWait ∨ w.user = .waiting := by
      rcases hlinks.threads.2 with huser | huser
      · rw [World.Awaits, huser] at hawaits
        exact hawaits
      · rw [World.Awaits, huser] at hawaits
        exact absurd hawaits (by decide)
    rcases hbefore with huser | huser
    · have hno := (hok.1 huser).1
      rw [show Label.acks w (.writeDone i true) = true from hacks.trans hack] at hno
      exact absurd hno (by decide)
    · have hfirst := hok.2 huser (hacks.trans hack)
      have hwoken : (handshakeAckCb cfg write.transport (uvStatus true) ({ w with
          writes := w.writes.eraseIdx i }.note (.writeDone write (uvStatus true) working listed))).user =
          .woken := handshakeAckCb_wakes hwork (by decide) hfirst huser
      rw [World.Awaits, hwoken] at hawaits
      exact absurd hawaits (by decide)
  · refine h.links hlinks fun hunready => ?_
    have hdone : ({ w with writes := w.writes.eraseIdx i }.note
        (.writeDone write (uvStatus ok) working listed)).Unready := hunready
    refine enduring_unready.handshakeAckCb hdone fun hwork hstatus => ?_
    cases ok with
    | true =>
      have hwork' : w.working write.transport = true := hwork
      exact absurd hwork' (by simpa using hack)
    | false => exact absurd rfl hstatus

theorem World.Hopeful.clientConnect (h : w.user = .idle) (call : ConnectCall) :
    (clientConnect call w).Hopeful := by
  have hcases := clientConnect_cases call w
  generalize Libpomelo.clientConnect call w = w' at hcases ⊢
  cases hcases with
  | failed host supply => exact .of_not_awaits (by simp [World.Awaits, h])
  | refused host supply w' hconn =>
    have huser : w'.user = .idle := by
      have hcases := pcConnect_cases call.cb { w with host := host, supply := supply }
      rw [hconn] at hcases
      cases hcases <;> exact h
    exact .of_not_awaits (by simp [World.Awaits, huser])
  | started host supply w' hconn =>
    have hst : w'.state = .connecting := pcConnect_state hconn
    exact ⟨fun _ => by simp [hst], fun _ => by simp⟩

theorem UserGoes.awaits {l : Label} {pc : UserPc} (h : UserGoes w l pc)
    (hpc : pc = .connectWait ∨ pc = .waiting) : w.user = .connectWait := by
  cases h with
  | wait huser => exact huser
  | _ => exact absurd hpc (by decide)

/-- The caller starts to wait, or does something else. -/
theorem World.Hopeful.goes {l : Label} {pc : UserPc} (h : w.Hopeful) (hm : Moves cfg w w')
    (hgoes : UserGoes w l pc) : ({ w' with user := pc } : World).Hopeful := by
  have hmoved := h.moves hm
  have hbefore : ({ w' with user := pc } : World).Awaits → w'.Awaits := by
    intro hawaits
    have huser := hgoes.awaits hawaits
    rcases hm.framed.user with hsame | ⟨hwait, -⟩
    · exact .inl (hsame.trans huser)
    · rw [huser] at hwait
      exact absurd hwait (by decide)
  exact ⟨fun hawaits => hmoved.state (hbefore hawaits), fun hawaits => hmoved.worker (hbefore hawaits)⟩

/-- **One turn.** -/
theorem Turn.hopeful {l : Label} {supply : List Bool} (h : Turn cfg w l w') (hw : w.Hopeful)
    (hok : Punctual w (supply, l) w') : w'.Hopeful := by
  cases h with
  | moves _ hm => exact hw.moves hm
  | read t _ _ hm =>
    have hread : ({ w with reading := some t }.note (.read t)).Hopeful := ⟨hw.state, hw.worker⟩
    have hend := hread.moves hm
    exact ⟨hend.state, hend.worker⟩
  | tcpConnect i ok t req _ hi hdel =>
    exact hw.links (links_onTcpConnect hi hdel) fun hunready => unready_onTcpConnect _ _ _ hunready
  | handshakeReq i ok write working listed _ hi hcb =>
    refine hw.links (links_turn_handshakeReq ok working listed hi hcb) fun hunready => ?_
    have hdone : ({ w with writes := w.writes.eraseIdx i }.note
        (.writeDone write (uvStatus ok) working listed)).Unready := hunready
    exact enduring_unready.handshakeReqCb hdone _ _
  | handshakeAck i ok write working listed _ hi hcb => exact hw.ack hi hcb hok
  | reconnectTimer _ hact =>
    exact hw.links (links_turn_reconnectTimer hact) fun hunready => unready_reconnectTimer hunready
  | connect call hidle _ => exact .clientConnect hidle call
  | loopEnd _ _ => exact ⟨fun _ => by simp, fun _ => by simp⟩
  | tailEmit _ hm => exact ⟨(hw.moves hm).state, fun _ => by simp⟩
  | tailExit hworker hm hwoken =>
    refine .of_not_awaits ?_
    rintro (huser | huser)
    · -- the thread is not yet in its wait when the worker signals
      have hbefore : w.user = .connectWait := by
        rcases hm.framed.user with hsame | ⟨-, hwoken'⟩
        · exact hsame.symm.trans huser
        · rw [show _ = UserPc.connectWait from huser] at hwoken'
          exact absurd hwoken' (by decide)
      have hno := (hok.1 hbefore).2
      rw [show Label.exits w .workerTail = true from decide_eq_true hworker] at hno
      exact absurd hno (by decide)
    · exact hwoken huser
  | user pc _ hm hgoes => exact hw.goes hm hgoes
  | join pc _ _ hpc | joinNone pc _ _ hpc =>
    refine .of_not_awaits ?_
    rcases hpc with ⟨-, rfl⟩ | ⟨-, rfl⟩ <;> simp [World.Awaits]
  | free huser =>
    obtain ⟨w₁, hm, heq | heq⟩ := clientFree_moves cfg w
    · rw [heq]
      exact hw.moves hm
    · rw [heq]
      exact .of_not_awaits (by simp [World.Awaits])

end Turns

/-! ## Runs -/

theorem reach_hopeful {cfg : Config} {w : World} (h : (clientLts cfg).Reach Punctual w) : w.Hopeful := by
  apply h.invariant (P := World.Hopeful)
  · rintro _ ⟨reqId, files, -, rfl⟩
    exact .of_not_awaits (by simp [World.Awaits, World.init])
  · intro w l w' hr hw hstep hok
    have hw₀ : ({ w with supply := l.1 } : World).Hopeful := ⟨hw.state, hw.worker⟩
    exact (step_turn (reach_reading hr) hstep).hopeful hw₀ hok

/-- **The caller is never stuck**, in every run in which the result of `pc_client_connect` does
not come before its caller waits, and in which the client becomes `WORKING` by the first connect
request while it does. -/
theorem not_stuck {cfg : Config} {w : World} (h : (clientLts cfg).Reach Punctual w) : ¬ w.Stuck := by
  have hw := reach_hopeful h
  rintro ⟨hwait, hready | hexited | hjoined⟩
  · exact hw.state (.inr hwait) hready.1
  · exact (hw.worker (.inr hwait)).1 hexited
  · exact (hw.worker (.inr hwait)).2 hjoined

/-- The caller waits before the connection is there, and is woken by the ack. -/
def patientRun : List (List Bool × Label) :=
  [([], .connect .connect), ([], .condWait), ([], .tcpConnect 0 true), ([], .writeDone 0 true),
    ([], .tcpRead 0 [] (.bytes ([1, 0, 0, 12] ++ okResponse))), ([], .writeDone 0 true)]

theorem not_stuck_patientRun :
    ∃ w, runSteps (plainConfig true) patientRun plainInit = some w ∧ w.state = .working ∧
      w.user = .woken ∧ ¬ w.Stuck := by
  have hrun : ∃ w, runSteps (plainConfig true) patientRun plainInit = some w ∧
      w.state = .working ∧ w.user = .woken := ⟨_, rfl, rfl, rfl⟩
  obtain ⟨w, hrun, hstate, huser⟩ := hrun
  have hok : RunMeets (plainConfig true) Punctual patientRun plainInit := by decide +kernel
  have hreach := reach_of_runSteps patientRun reach_plainInit hok hrun
  exact ⟨w, hrun, hstate, huser, not_stuck hreach⟩

/-- The same events, but the caller is late. -/
def lateRun : List (List Bool × Label) :=
  [([], .connect .connect), ([], .tcpConnect 0 true), ([], .writeDone 0 true),
    ([], .tcpRead 0 [] (.bytes ([1, 0, 0, 12] ++ okResponse))), ([], .writeDone 0 true),
    ([], .condWait)]

/-- **The caller is stuck**: it missed the broadcast. -/
theorem stuck_lateRun : ∃ w, runSteps (plainConfig false) lateRun plainInit = some w ∧ w.Stuck := by
  have hrun : ∃ w, runSteps (plainConfig false) lateRun plainInit = some w ∧ w.user = .waiting ∧
      w.state = .working ∧ w.connReq = none ∧ w.connects = [] := ⟨_, rfl, rfl, rfl, rfl, rfl⟩
  obtain ⟨w, hrun, huser, hstate, hreq, hconnects⟩ := hrun
  exact ⟨w, hrun, huser, .inl ⟨hstate, hreq, hconnects⟩⟩

end Libpomelo
