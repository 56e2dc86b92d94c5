import Libpomelo.Lifecycle
import Libpomelo.Heartbeats

/-!
# A closed client stays closed

`pc_client_stop` closes a client for good: it gives up the transport, the timers and
`close_async`. Nothing else that is still under way disturbs the client after that, with two
exceptions that the code itself leaves open:

* `pc_client_disconnect` looks at nothing. It sets the state to `DISCONNECTING` and sends on
  `close_async`, closed or not.
* With reconnect, `pc_client_stop` asks whether the client is `DISCONNECTING` and whether it is
  `reconnecting`, but not whether it is `CLOSED`: it resets a closed client and arms the
  reconnect timer. The user may call it, and so does the callback of a connect that was
  under way when the client was closed.

Runs without these calls leave the client as it is (`Undisturbed`, `closed_absorbing`).
-/

namespace Libpomelo

/-- The event is a call that rouses a closed client: `pc_client_disconnect`, and with reconnect
`pc_client_stop`, unless it is ignored. -/
def Event.rouses (cfg : Config) : Event → Bool
  | .disconnect _ => true
  | .stop state reconnecting => cfg.enableReconnect && state = .closed && !reconnecting
  | _ => false

/-- The event is a send on the closed `close_async`. -/
def Event.misuses : Event → Bool
  | .closeSend isOpen => !isOpen
  | _ => false

/-- The turn makes no such call, and no thread is in the middle of `pc_client_disconnect`. -/
def Undisturbed (cfg : Config) (w : World) (_ : List Bool × Label) (w' : World) : Prop :=
  w.user ≠ .disconnecting ∧ w.user ≠ .destroyDisconnecting ∧
    w'.trace.countP (Event.rouses cfg) = w.trace.countP (Event.rouses cfg)

instance (cfg : Config) (w : World) (l : List Bool × Label) (w' : World) :
    Decidable (Undisturbed cfg w l w') :=
  inferInstanceAs (Decidable (_ ∧ _))

/-- **The client rests**, as it did in the first world: it is closed, no timer was armed, and
nobody has used the handle that was closed with it. -/
structure World.RestsAs (w₀ w : World) : Prop where
  /-- closed -/
  state : w.state = .closed
  /-- the handle is closed -/
  closeAsync : w.closeAsync = false
  /-- no heartbeat timer -/
  heartbeatTimer : w.heartbeatTimer = none
  /-- no timeout timer -/
  timeoutTimer : w.timeoutTimer = none
  /-- no handshake timer -/
  handshakeTimer : w.handshakeTimer = none
  /-- the reconnect timer was not armed -/
  reconnectTimer : w.reconnectTimer.active = true → w₀.reconnectTimer.active = true
  /-- the handle was not used -/
  unused : w.trace.countP Event.misuses = w₀.trace.countP Event.misuses

/-! ## Handles -/

/-- The timers go with `close_async`. -/
def World.Bare (w : World) : Prop :=
  w.closeAsync = false →
    w.heartbeatTimer = none ∧ w.timeoutTimer = none ∧ w.handshakeTimer = none

section Handles

variable {cfg : Config} {begins : Bool} {w w' : World}

theorem World.Bare.of_eq (h : w.Bare) (hasync : w'.closeAsync = w.closeAsync)
    (hheartbeat : w'.heartbeatTimer = w.heartbeatTimer) (htimeout : w'.timeoutTimer = w.timeoutTimer)
    (hhandshake : w'.handshakeTimer = w.handshakeTimer) : w'.Bare := by
  rw [World.Bare, hasync, hheartbeat, htimeout, hhandshake]
  exact h

theorem Change.bare (h : Change w w') (hw : w.Bare) (hasync : w'.closeAsync = w.closeAsync) :
    w'.Bare := by
  intro hclosed
  rw [hasync] at hclosed
  obtain ⟨hheartbeat, htimeout, hhandshake⟩ := hw hclosed
  cases h with
  | stopTimers => simp [Libpomelo.stopTimers, hheartbeat, htimeout, hhandshake]
  | fireHeartbeat | beatSent | fireTimeout | stopHandshake => simp [hheartbeat, htimeout, hhandshake]
  | beat timeout heartbeat htimeout' _ =>
    rw [htimeout] at htimeout'
    exact absurd htimeout' (by simp)
  | armHandshake hsome _ =>
    rw [hhandshake] at hsome
    exact absurd hsome (by decide)
  | loadProtoVer =>
    rw [Libpomelo.loadProtoVer]
    split <;> exact ⟨hheartbeat, htimeout, hhandshake⟩
  | _ => exact ⟨hheartbeat, htimeout, hhandshake⟩

/-- A handshake response sets intervals, and leaves the handshake timer alone. -/
theorem World.Bare.setupSys (h : w.Bare) (res : Json) : (setupSys res w).Bare := by
  have hinert : (Libpomelo.setupSys res w).closeAsync = w.closeAsync := by
    rw [(inert_setupSys res w).eq]
  have hhandshake : (Libpomelo.setupSys res w).handshakeTimer = w.handshakeTimer := by
    simp only [Libpomelo.setupSys, setupProtos, setupDictionary, setupHeartbeat]
    split
    · split <;> split <;> split <;> rfl
    · rfl
  intro hclosed
  rw [hinert] at hclosed
  obtain ⟨hbeat, hwait, hshake⟩ := h hclosed
  rw [(setupSys_timers res w).1, (setupSys_timers res w).2, hbeat, hwait, hhandshake]
  refine ⟨?_, ?_, hshake⟩
  · split <;> rfl
  · split <;> rfl

theorem Move.bare (h : Move cfg begins w w') (hw : w.Bare) : w'.Bare := by
  cases h with
  | inert w' hin hchange =>
    apply hchange.bare hw
    rw [hin.eq]
  | shook w' t res _ heq _ _ =>
    rw [heq]
    exact (hw.setupSys res).of_eq rfl rfl rfl rfl
  | close => exact fun _ => ⟨rfl, rfl, rfl⟩
  | _ => exact hw.of_eq rfl rfl rfl rfl

theorem kept_bare : Kept cfg World.Bare where
  init _ _ h := absurd h (by simp [World.init])
  link _ _ hw hlink := by
    cases hlink with
    | move hm => exact hm.bare hw
    | _ => exact hw.of_eq rfl rfl rfl rfl
  threads _ _ _ _ hw := hw.of_eq rfl rfl rfl rfl
  start _ _ hw _ _ := hw.of_eq rfl rfl rfl rfl
  finish _ hw := hw.of_eq rfl rfl rfl rfl
  loopEnd _ hw _ := hw.of_eq rfl rfl rfl rfl

/-- **What a closed client has left**, once it has been connected: neither `close_async` nor a
timer. -/
theorem closed_restsAs (h : Reachable cfg w) (hclosed : w.state = .closed)
    (hworker : w.worker ≠ .none) : w.RestsAs w := by
  have hshuts : w.Shuts cfg := by
    refine stable_shuts.reach_started ?_ h hworker
    exact fun w hst => .of_state (by rw [hst]; decide) (by rw [hst]; decide)
  have hasync := hshuts.closed hclosed
  obtain ⟨hheartbeat, htimeout, hhandshake⟩ := kept_bare.reach h hasync
  exact ⟨hclosed, hasync, hheartbeat, htimeout, hhandshake, id, rfl⟩

end Handles

/-! ## Moves -/

/-- A client at rest in the middle of a turn: nothing works, no reset is running, and no thread
is in the middle of `pc_client_disconnect`. -/
structure World.AtRest (w₀ w : World) : Prop extends w₀.RestsAs w where
  /-- nothing works -/
  idle : ∀ t, w.working t = false
  /-- no reset is running -/
  resetting : w.resetting = false
  /-- the user's thread does not disconnect -/
  user : w.user ≠ .disconnecting ∧ w.user ≠ .destroyDisconnecting

section Moves

variable {cfg : Config} {begins : Bool} {w₀ w w' : World}

theorem World.AtRest.of_eq (h : w₀.AtRest w) (hstate : w'.state = w.state)
    (hasync : w'.closeAsync = w.closeAsync) (hheartbeat : w'.heartbeatTimer = w.heartbeatTimer)
    (htimeout : w'.timeoutTimer = w.timeoutTimer) (hhandshake : w'.handshakeTimer = w.handshakeTimer)
    (hreconnect : w'.reconnectTimer.active = true → w.reconnectTimer.active = true)
    (hunused : w'.trace.countP Event.misuses = w.trace.countP Event.misuses)
    (hwork : ∀ t, w'.working t = true → w.working t = true) (hreset : w'.resetting = w.resetting)
    (huser : w'.user = w.user) : w₀.AtRest w' := by
  refine ⟨⟨hstate.trans h.state, hasync.trans h.closeAsync, hheartbeat.trans h.heartbeatTimer,
    htimeout.trans h.timeoutTimer, hhandshake.trans h.handshakeTimer,
    fun hactive => h.reconnectTimer (hreconnect hactive), hunused.trans h.unused⟩, ?_,
    hreset.trans h.resetting, ?_⟩
  · intro t
    by_contra hwork'
    have hold := hwork t (by simpa using hwork')
    rw [h.idle t] at hold
    exact absurd hold (by decide)
  · rw [huser]
    exact h.user

/-- The handles are gone with `close_async`, so only the rest of the fields matters. -/
theorem World.AtRest.inert (h : w₀.AtRest w) (hin : w.Inert w') (hbare : w'.Bare) : w₀.AtRest w' := by
  have hasync : w'.closeAsync = false := by
    rw [hin.eq]
    exact h.closeAsync
  obtain ⟨hheartbeat, htimeout, hhandshake⟩ := hbare hasync
  refine h.of_eq ?_ ?_ (hheartbeat.trans h.heartbeatTimer.symm) (htimeout.trans h.timeoutTimer.symm)
    (hhandshake.trans h.handshakeTimer.symm) ?_ ?_ ?_ ?_ ?_
  all_goals rw [hin.eq]
  · exact id
  · exact fun _ => id

theorem World.AtRest.note {e : Event} (h : w₀.AtRest w) (he : e.misuses = false) :
    w₀.AtRest (w.note e) := by
  refine h.of_eq rfl rfl rfl rfl rfl id ?_ (fun _ => id) rfl rfl
  exact List.countP_cons_of_neg (by rw [he]; decide)

theorem Event.Quiet.atRest {e : Event} (hq : e.Quiet w) (hw : w₀.AtRest w) :
    w₀.AtRest (w.note e) := by
  cases e with
  | closeSend isOpen =>
    rcases hq.2 with hst | huser | huser
    · rw [hw.state] at hst
      exact absurd hst (by decide)
    · exact absurd huser hw.user.1
    · exact absurd huser hw.user.2
  | _ => exact hw.note rfl

/-- **One move.** Whatever would change the client needs a transport that works, a reset that is
running or a handle that is open, or is a call that rouses it. -/
theorem Move.atRest (h : Move cfg begins w w') (hw : w₀.AtRest w)
    (hquiet : w'.trace.countP (Event.rouses cfg) = w.trace.countP (Event.rouses cfg)) :
    w₀.AtRest w' := by
  have hbare : w.Bare := fun _ => ⟨hw.heartbeatTimer, hw.timeoutTimer, hw.handshakeTimer⟩
  cases h with
  | inert w' hin hchange =>
    refine hw.inert hin (hchange.bare hbare ?_)
    rw [hin.eq]
  | note e hq => exact hq.atRest hw
  | shook w' t res hin heq _ _ =>
    have hset : w'.Bare := by
      rw [heq]
      exact hbare.setupSys res
    exact (hw.inert hin hset).note rfl
  | accept | queueWrite | asyncRequestCb | asyncNotifyCb | sendNotify | release | respond | orphanCb
  | lateCb | closeHandled =>
    exact World.AtRest.note (hw.of_eq rfl rfl rfl rfl rfl id rfl (fun _ => id) rfl rfl) rfl
  | notifyDone i write req done working listed =>
    have hdone : w₀.AtRest ({ w with writes := w.writes.eraseIdx i }.note
        (.writeDone write done working listed)) :=
      World.AtRest.note (hw.of_eq rfl rfl rfl rfl rfl id rfl (fun _ => id) rfl rfl) rfl
    exact hdone.note rfl
  | beginReset hcfg _ _ _ =>
    -- a call of `pc_client_stop` that resets rouses the client
    have hrouses : Event.rouses cfg (.stop w.state false) = true := by
      rw [hw.state, Event.rouses, hcfg]
      rfl
    rw [List.countP_cons_of_pos hrouses] at hquiet
    exact absurd hquiet (Nat.succ_ne_self _)
  | reset _ _ _ hin =>
    have hreset := hin.resetting
    rw [hw.resetting] at hreset
    exact absurd hreset (by decide)
  | closeInited _ hst =>
    rw [hw.state] at hst
    exact absurd hst (by decide)
  | close _ _ hne => exact absurd hw.state hne
  | disconnect =>
    -- and so does a `pc_client_disconnect`
    have hmore : (.disconnect w.resetting :: w.trace).countP (Event.rouses cfg) =
        w.trace.countP (Event.rouses cfg) := hquiet
    rw [List.countP_cons_of_pos (show Event.rouses cfg (.disconnect w.resetting) = true from rfl)]
      at hmore
    exact absurd hmore (Nat.succ_ne_self _)
  | sendClose hopen =>
    rw [hw.closeAsync] at hopen
    exact absurd hopen (by decide)
  | fireTimer hactive =>
    exact hw.of_eq rfl rfl rfl rfl rfl (fun _ => hactive) rfl (fun _ => id) rfl rfl
  | stopTimer =>
    exact hw.of_eq rfl rfl rfl rfl rfl (fun hno => absurd hno (by simp [uvTimerStop])) rfl
      (fun _ => id) rfl rfl
  | wake hwait =>
    have hrest : w₀.RestsAs { w with user := .woken } :=
      ⟨hw.state, hw.closeAsync, hw.heartbeatTimer, hw.timeoutTimer, hw.handshakeTimer,
        hw.reconnectTimer, hw.unused⟩
    exact ⟨hrest, hw.idle, hw.resetting, by simp⟩
  | _ => exact hw.of_eq rfl rfl rfl rfl rfl id rfl (fun _ => id) rfl rfl

theorem Link.atRest (h : Link cfg w w') (hw : w₀.AtRest w)
    (hquiet : w'.trace.countP (Event.rouses cfg) = w.trace.countP (Event.rouses cfg)) :
    w₀.AtRest w' := by
  have hstate := hw.state
  cases h with
  | move hm => exact hm.atRest hw hquiet
  | connecting hst | refused _ _ _ _ hst | connected _ _ _ _ hst _ =>
    rw [hstate] at hst
    exact absurd hst (by decide)
  | transportNew =>
    refine hw.of_eq rfl rfl rfl rfl rfl id rfl ?_ rfl rfl
    exact fun t ht => decide_eq_true ((getElem?_concat_ne (by decide) t).1 (of_decide_eq_true ht))
  | launch req =>
    refine World.AtRest.note (hw.of_eq rfl rfl rfl rfl rfl id rfl ?_ rfl rfl) rfl
    exact fun t ht => decide_eq_true ((getElem?_concat_ne (by decide) t).1 (of_decide_eq_true ht))
  | greet => exact World.AtRest.note (hw.of_eq rfl rfl rfl rfl rfl id rfl (fun _ => id) rfl rfl) rfl
  | connectCb => exact hw.note rfl
  | acked t write working listed hwork _ _ _ =>
    rw [hw.idle t] at hwork
    exact absurd hwork (by decide)
  | _ => exact hw.of_eq rfl rfl rfl rfl rfl id rfl (fun _ => id) rfl rfl

/-- **Many moves**, if none of them rouses the client. -/
theorem Links.atRest (h : Links cfg w w') (hw : w₀.AtRest w)
    (hquiet : w'.trace.countP (Event.rouses cfg) = w.trace.countP (Event.rouses cfg)) :
    w₀.AtRest w' := by
  refine preserved_of_level (μ := fun w => w.trace.countP (Event.rouses cfg)) ?_ ?_ h.seq hquiet hw
  · exact fun _ _ hl => hl.trace_suffix.sublist.countP_le
  · exact fun _ _ hrest hl hlevel => hl.atRest hrest hlevel

end Moves

/-! ## Runs -/

section Runs

variable {cfg : Config} {w₀ w w' : World}

/-- **One turn.** -/
theorem step_restsAs {l : List Bool × Label} (h : Reachable cfg w)
    (hstep : step cfg l.1 l.2 w = some w') (hok : Undisturbed cfg w l w') (hw : w₀.RestsAs w) :
    w₀.RestsAs w' := by
  have hidle : ∀ t, w.working t = false := (kept_lifecycle.reach h).idle (.inr (.inr hw.state))
  have hreset : w.resetting = false := reach_settled h (step_halted hstep)
  obtain ⟨huser, huser', hquiet⟩ := hok
  have hsupply : w₀.RestsAs { w with supply := l.1 } :=
    ⟨hw.state, hw.closeAsync, hw.heartbeatTimer, hw.timeoutTimer, hw.handshakeTimer,
      hw.reconnectTimer, hw.unused⟩
  have hrest : w₀.AtRest { w with supply := l.1 } := ⟨hsupply, hidle, hreset, huser, huser'⟩
  cases (step_turn (reach_reading h) hstep).shape with
  | links worker user hl =>
    have hend := hl.atRest hrest hquiet
    exact ⟨hend.state, hend.closeAsync, hend.heartbeatTimer, hend.timeoutTimer, hend.handshakeTimer,
      hend.reconnectTimer, hend.unused⟩
  | read t hwork _ =>
    rw [hrest.idle t] at hwork
    exact absurd hwork (by decide)
  | join user =>
    exact ⟨hw.state, hw.closeAsync, hw.heartbeatTimer, hw.timeoutTimer, hw.handshakeTimer,
      hw.reconnectTimer, hw.unused⟩
  | loopEnd _ =>
    exact ⟨rfl, hw.closeAsync, hw.heartbeatTimer, hw.timeoutTimer, hw.handshakeTimer,
      hw.reconnectTimer, hw.unused⟩

/-- **A closed client stays closed.** From any state a run reaches in which the client is
`CLOSED` and its worker was started: as long as nobody calls `pc_client_disconnect`, and with
reconnect nobody calls `pc_client_stop`, the state stays what it is, no timer is armed and the
closed `close_async` is not used. -/
theorem closed_absorbing (h : Reachable cfg w) (hclosed : w.state = .closed)
    (hworker : w.worker ≠ .none) (hrun : (clientLts cfg).Run (Undisturbed cfg) w w') :
    w.RestsAs w' := by
  induction hrun with
  | refl => exact closed_restsAs h hclosed hworker
  | step hbefore hstep hok ih =>
    have hreach : Reachable cfg _ := h.run (fun _ _ _ _ => trivial) hbefore
    exact step_restsAs hreach hstep hok ih

end Runs

/-- A client that is disconnected. -/
def closedRun : List (List Bool × Label) :=
  plainStart ++ [([], .disconnectSet), ([], .disconnectSend), ([], .closeAsync)]

/-- The worker ends, and the client is joined and destroyed. -/
def restRun : List (List Bool × Label) :=
  [([], .loopEnd), ([], .workerTail), ([], .workerTail), ([], .join), ([], .destroy), ([], .destroy),
    ([], .destroy)]

theorem closed_absorbing_restRun :
    ∃ w w', runSteps (plainConfig true) closedRun plainInit = some w ∧ w.state = .closed ∧
      runSteps (plainConfig true) restRun w = some w' ∧ w'.user = .freed ∧ w.RestsAs w' := by
  have hrun : ∃ w w', runSteps (plainConfig true) closedRun plainInit = some w ∧
      w.state = .closed ∧ w.worker = .looping ∧
      runSteps (plainConfig true) restRun w = some w' ∧ w'.user = .freed ∧
      RunMeets (plainConfig true) (Undisturbed (plainConfig true)) restRun w :=
    ⟨_, _, rfl, rfl, rfl, rfl, rfl, by decide +kernel⟩
  obtain ⟨w, w', hclosing, hclosed, hworker, hrest, hfreed, hok⟩ := hrun
  have hreach := reachable_of_run hclosing
  have hrun := run_of_runSteps restRun .refl hok hrest
  refine ⟨w, w', hclosing, hclosed, hrest, hfreed, closed_absorbing hreach hclosed ?_ hrun⟩
  rw [hworker]
  decide

set_option maxRecDepth 2048 in
/-- **`pc_client_stop` on a closed client** resets it and arms the reconnect timer. -/
theorem closed_stopped :
    ∃ w w', runSteps (plainConfig true) closedRun plainInit = some w ∧ w.state = .closed ∧
      w.worker = .looping ∧ step (plainConfig true) [] (.call .stop) w = some w' ∧
      w'.state = .inited ∧ w'.reconnectTimer.active = true ∧ ¬ w.RestsAs w' := by
  have hrun : ∃ w w', runSteps (plainConfig true) closedRun plainInit = some w ∧
      w.state = .closed ∧ w.worker = .looping ∧
      step (plainConfig true) [] (.call .stop) w = some w' ∧ w'.state = .inited ∧
      w'.reconnectTimer.active = true := ⟨_, _, rfl, rfl, rfl, rfl, rfl, rfl⟩
  obtain ⟨w, w', hclosing, hclosed, hworker, hstep, hinited, htimer⟩ := hrun
  refine ⟨w, w', hclosing, hclosed, hworker, hstep, hinited, htimer, fun hrest => ?_⟩
  rw [hrest.state] at hinited
  exact absurd hinited (by decide)

end Libpomelo
