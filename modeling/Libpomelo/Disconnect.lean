import Libpomelo.Lifecycle

/-!
# A disconnect is not lost

`pc_client_disconnect` asks for the end of a reconnecting client by setting its state to
`DISCONNECTING`; the message of `close_async` that follows makes the loop look at it. Three
places overwrite the request. `pc__handshake_ack_cb` sets the state to `WORKING`,
`pc_client_stop` takes a client that is already `CLOSED` for one that lost its connection
and reconnects, and `pc__client_reconnect_reset` ends by setting the state to `INITED`,
whatever the request callbacks that it ran have done.

A run heeds the disconnect (`Event.Heeds`) when nothing of this happens: the call does not
come from such a callback, no ack completes while the client is `DISCONNECTING`, and
`pc_client_stop` is not called on the `CLOSED` client. Then the client stays `DISCONNECTING` until it is `CLOSED` and never
leaves that state (`Heeded`), and once the message is handled it is `CLOSED` with
the reconnect timer stopped (`disconnect_not_lost`).
-/

namespace Libpomelo

/-- The events `since` followed the last disconnect; `inReset` tells whether it was called
from within a reset. -/
def SinceDisconnect (trace : List Event) (inReset : Bool) (since : List Event) : Prop :=
  ∃ before, trace = since ++ .disconnect inReset :: before ∧ ∀ b, .disconnect b ∉ since

/-- The event does not overwrite a disconnect: `pc_client_stop` is not called on a
client that is `CLOSED` (unless `reconnecting` makes it return at once), and no ack
completes on a client that is `DISCONNECTING`. -/
def Event.Heeds : Event → Prop
  | .stop state reconnecting => ¬ (state = .closed ∧ reconnecting = false)
  | .acked from_ => from_ ≠ .disconnecting
  | _ => True

instance : DecidablePred Event.Heeds := by
  intro e
  unfold Event.Heeds
  split <;> infer_instance

/-- **What a disconnect leads to.** The client is on its way to `CLOSED`, and there once
the message of `close_async` was handled. -/
structure Heeded (state : ClientState) (timer : Timer) (since : List Event) : Prop where
  /-- the state set by the disconnect, or the last one -/
  ending : state = .disconnecting ∨ state = .closed
  /-- after the message -/
  handled : .closeHandled ∈ since → state = .closed ∧ timer.active = false

/-- The last disconnect is heeded, if the events since then allow. -/
def World.Heeding (w : World) : Prop :=
  ∀ since, SinceDisconnect w.trace false since → (∀ e ∈ since, e.Heeds) →
    Heeded w.state w.reconnectTimer since ∧ w.resetting = false

/-! ## Since the last disconnect -/

section Since

variable {trace since : List Event} {inReset : Bool} {e : Event}

/-- A new event belongs to what follows. -/
theorem SinceDisconnect.of_cons (h : SinceDisconnect (e :: trace) inReset since)
    (he : ∀ b, e ≠ .disconnect b) :
    ∃ since', since = e :: since' ∧ SinceDisconnect trace inReset since' := by
  obtain ⟨before, hsplit, hnot⟩ := h
  cases since with
  | nil => exact absurd (List.cons.inj hsplit).1 (he inReset)
  | cons e' since' =>
    obtain ⟨rfl, hrest⟩ := List.cons.inj hsplit
    exact ⟨since', rfl, before, hrest, fun b hmem => hnot b (List.mem_cons_of_mem _ hmem)⟩

/-- Nothing follows a disconnect that just happened. -/
theorem SinceDisconnect.of_disconnect {b : Bool}
    (h : SinceDisconnect (.disconnect b :: trace) inReset since) : since = [] ∧ b = inReset := by
  obtain ⟨before, hsplit, hnot⟩ := h
  cases since with
  | nil => exact ⟨rfl, Event.disconnect.inj (List.cons.inj hsplit).1⟩
  | cons e' since' =>
    obtain ⟨rfl, -⟩ := List.cons.inj hsplit
    exact absurd (List.mem_cons_self ..) (hnot b)

end Since

/-! ## Moves -/

section Moves

variable {cfg : Config} {begins : Bool} {w w' : World}

/-- A report changes nothing. -/
theorem World.Heeding.note {e : Event} (h : w.Heeding) (he : ∀ b, e ≠ .disconnect b)
    (hhandled : e ≠ .closeHandled) : (w.note e).Heeding := by
  intro since hsince hheeds
  obtain ⟨since', rfl, hsince'⟩ := hsince.of_cons he
  obtain ⟨⟨hstate, hclosed⟩, hreset⟩ :=
    h since' hsince' fun e he => hheeds e (List.mem_cons_of_mem _ he)
  refine ⟨⟨hstate, ?_⟩, hreset⟩
  intro hmem
  exact hclosed (List.mem_of_ne_of_mem hhandled.symm hmem)

/-- Where the state is neither, no disconnect is being heeded. -/
theorem World.Heeding.of_state (h : w.Heeding) (hdisc : w.state ≠ .disconnecting)
    (hclosed : w.state ≠ .closed) (htrace : w'.trace = w.trace) : w'.Heeding := by
  intro since hsince hheeds
  rw [htrace] at hsince
  exact absurd (h since hsince hheeds).1.ending (not_or.2 ⟨hdisc, hclosed⟩)

/-- A reconnect would start from `CLOSED`, through a call of `pc_client_stop`. -/
theorem World.Heeding.beginReset (h : w.Heeding) (hstate : w.state ≠ .disconnecting)
    (htrace : w'.trace = .stop w.state false :: w.trace) : w'.Heeding := by
  intro since hsince hheeds
  rw [htrace] at hsince
  obtain ⟨since', rfl, hsince'⟩ := hsince.of_cons (by simp)
  have hheeds' : ∀ e ∈ since', e.Heeds := fun e he => hheeds e (List.mem_cons_of_mem _ he)
  have hclosed : w.state = .closed := (h since' hsince' hheeds').1.ending.resolve_left hstate
  exact absurd ⟨hclosed, rfl⟩ (hheeds _ (List.mem_cons_self ..))

/-- So while one runs, no disconnect is being heeded. -/
theorem World.Heeding.reset {delay : Option ℤ} (h : w.Heeding) (hreset : w.resetting = true)
    (htrace : w'.trace = .reset delay :: w.trace) : w'.Heeding := by
  intro since hsince hheeds
  rw [htrace] at hsince
  obtain ⟨since', rfl, hsince'⟩ := hsince.of_cons (by simp)
  have hno := (h since' hsince' fun e he => hheeds e (List.mem_cons_of_mem _ he)).2
  rw [hreset] at hno
  exact absurd hno (by decide)

theorem World.Heeding.closeHandled (h : w.Heeding) (hstate : w.state ≠ .disconnecting)
    (htimer : w.state = .closed → w.reconnectTimer.active = false) :
    (w.note .closeHandled).Heeding := by
  intro since hsince hheeds
  obtain ⟨since', rfl, hsince'⟩ := hsince.of_cons (by simp)
  obtain ⟨hheeded, hreset⟩ := h since' hsince' fun e he => hheeds e (List.mem_cons_of_mem _ he)
  have hclosed : w.state = .closed := hheeded.ending.resolve_left hstate
  exact ⟨⟨.inr hclosed, fun _ => ⟨hclosed, htimer hclosed⟩⟩, hreset⟩

/-- The ack of a client that is `CLOSED` does not complete: nothing works there. -/
theorem World.Heeding.acked {t : ℕ} (h : w.Heeding) (hlife : w.Lifecycle)
    (hwork : w.working t = true) :
    ({ w with state := .working }.note (.acked w.state)).Heeding := by
  intro since hsince hheeds
  obtain ⟨since', rfl, hsince'⟩ := hsince.of_cons (by simp)
  have hdisc : w.state ≠ .disconnecting := hheeds (.acked w.state) (List.mem_cons_self ..)
  have hheeded := (h since' hsince' fun e he => hheeds e (List.mem_cons_of_mem _ he)).1
  have hidle := hlife.idle (.inr (.inr (hheeded.ending.resolve_left hdisc))) t
  rw [hwork] at hidle
  exact absurd hidle (by decide)

/-- **A move keeps the disconnect.** `closeAsync` tells apart whether the message can
still be handled. -/
theorem Move.heeding (h : Move cfg begins w w') (hcfg : cfg.enableReconnect = true)
    (hopen : w.state = .closed → w.closeAsync = false) (hw : w.Heeding) : w'.Heeding := by
  cases h with
  | inert w' hin _ =>
    rw [hin.eq]
    exact hw
  | shook w' _ _ hin _ _ _ =>
    rw [hin.eq]
    exact World.Heeding.note hw (by simp) (by simp)
  | note e hq =>
    apply hw.note
    · rintro b rfl
      exact hq
    · rintro rfl
      exact hq
  | accept | queueWrite | asyncRequestCb | asyncNotifyCb | sendNotify | release | respond | orphanCb
  | lateCb =>
    exact World.Heeding.note hw (by simp) (by simp)
  | notifyDone i write req done working listed =>
    have hdone : ({ w with writes := w.writes.eraseIdx i }.note
        (.writeDone write done working listed)).Heeding := World.Heeding.note hw (by simp) (by simp)
    exact hdone.note (by simp) (by simp)
  | beginReset _ hstate _ _ =>
    -- no reset begins in a client that is `DISCONNECTING`
    exact hw.beginReset hstate rfl
  | reset delay _ _ hin => exact hw.reset hin.resetting rfl
  | fireTimer hactive =>
    intro since hsince hheeds
    obtain ⟨⟨hstate, hhandled⟩, hreset⟩ := hw since hsince hheeds
    refine ⟨⟨hstate, ?_⟩, hreset⟩
    intro hmem
    rw [(hhandled hmem).2] at hactive
    exact absurd hactive (by decide)
  | stopTimer =>
    intro since hsince hheeds
    obtain ⟨⟨hstate, hhandled⟩, hreset⟩ := hw since hsince hheeds
    exact ⟨⟨hstate, fun hmem => ⟨(hhandled hmem).1, rfl⟩⟩, hreset⟩
  | closeInited hno _ =>
    rw [hcfg] at hno
    exact absurd hno (by decide)
  | close _ _ _ =>
    intro since hsince hheeds
    obtain ⟨since₁, rfl, hsince₁⟩ := hsince.of_cons (by simp)
    obtain ⟨since₂, rfl, hsince₂⟩ := hsince₁.of_cons (by simp)
    have hold := hw since₂ hsince₂ fun e he =>
      hheeds e (List.mem_cons_of_mem _ (List.mem_cons_of_mem _ he))
    refine ⟨⟨.inr rfl, fun _ => ⟨rfl, ?_⟩⟩, hold.2⟩
    simp [hcfg, uvTimerStop]
  | disconnect =>
    intro since hsince _
    obtain ⟨rfl, hreset⟩ := hsince.of_disconnect
    exact ⟨⟨.inl rfl, fun hmem => absurd hmem List.not_mem_nil⟩, hreset⟩
  | closeHandled hstate htimer =>
    -- from here on the client is closed, and its timer stopped
    apply hw.closeHandled hstate
    intro hclosed
    exact htimer hcfg hclosed (hopen hclosed)
  | _ => exact hw

theorem Link.heeding (h : Link cfg w w') (hcfg : cfg.enableReconnect = true) (hlife : w.Lifecycle)
    (hopen : w.state = .closed → w.closeAsync = false) (hw : w.Heeding) : w'.Heeding := by
  cases h with
  | move hm => exact hm.heeding hcfg hopen hw
  | connecting hst => exact hw.of_state (by rw [hst]; decide) (by rw [hst]; decide) rfl
  | launch | greet | connectCb => exact World.Heeding.note hw (by simp) (by simp)
  | connected i t req _ hst _ => exact hw.of_state (by rw [hst]; decide) (by rw [hst]; decide) rfl
  | acked t write working listed hwork _ _ _ => exact hw.acked hlife hwork
  | _ => exact hw

end Moves

/-! ## Runs -/

theorem kept_shuts {cfg : Config} (hcfg : cfg.enableReconnect = true) :
    Kept cfg fun w => w.Lifecycle ∧ w.Shuts cfg := by
  apply kept_lifecycle.and
  · intro reqId files
    refine ⟨?_, fun hst => absurd hst (by simp [World.init])⟩
    rw [hcfg]
    exact fun hno => absurd hno (by decide)
  · exact fun w w' _ hw hlink => hlink.shuts hw
  · exact stable_shuts.threads
  · exact fun w t _ hw hread hwork => stable_shuts.start w t hw hread hwork
  · exact stable_shuts.finish
  · exact fun w _ hw hidle => stable_shuts.loopEnd w hw hidle

theorem kept_heeding {cfg : Config} (hcfg : cfg.enableReconnect = true) :
    Kept cfg fun w => (w.Lifecycle ∧ w.Shuts cfg) ∧ w.Heeding := by
  apply (kept_shuts hcfg).and
  · rintro reqId files since ⟨before, hsplit, -⟩
    exact absurd hsplit (by simp [World.init])
  · exact fun w w' hshuts hw hlink => hlink.heeding hcfg hshuts.1 hshuts.2.closed hw
  · exact fun w supply worker user hw => hw
  · exact fun w t _ hw _ _ => World.Heeding.note hw (by simp) (by simp)
  · exact fun w hw => hw
  · intro w _ hw _ since hsince hheeds
    obtain ⟨hheeded, hreset⟩ := hw since hsince hheeds
    exact ⟨⟨.inr rfl, fun hmem => ⟨rfl, (hheeded.handled hmem).2⟩⟩, hreset⟩

/-- **A disconnect is not lost.** Take any run of a reconnecting client and what happened
in it since the last `pc_client_disconnect`, which was not called from within a reset. If
no ack completed while the client was `DISCONNECTING` and `pc_client_stop` was not called
on the `CLOSED` client, then after the message of `close_async` has been handled the client
is `CLOSED` and its reconnect timer is not armed. -/
theorem disconnect_not_lost {cfg : Config} {w : World} {since : List Event}
    (hcfg : cfg.enableReconnect = true) (h : Reachable cfg w)
    (hsince : SinceDisconnect w.trace false since)
    (hheeds : ∀ e ∈ since, e.Heeds) (hhandled : .closeHandled ∈ since) :
    w.state = .closed ∧ w.reconnectTimer.active = false :=
  (((kept_heeding hcfg).reach h).2 since hsince hheeds).1.handled hhandled

/-- A disconnect of a client that works. -/
def heededRun : List (List Bool × Label) :=
  plainStart ++ [([], .disconnectSet), ([], .disconnectSend), ([], .closeAsync)]

/-- It ends in `CLOSED`. -/
theorem disconnect_heededRun :
    ∃ w since, runSteps (plainConfig true) heededRun plainInit = some w ∧
      SinceDisconnect w.trace false since ∧ .closeHandled ∈ since ∧
      w.state = .closed ∧ w.reconnectTimer.active = false := by
  have hrun : ∃ w before, runSteps (plainConfig true) heededRun plainInit = some w ∧
      w.trace = [.closeHandled, .closed, .stop .disconnecting false, .closeSend true] ++ .disconnect false :: before :=
    ⟨_, _, rfl, rfl⟩
  obtain ⟨w, before, hrun, htrace⟩ := hrun
  have hreach := reachable_of_run hrun
  have hsince : SinceDisconnect w.trace false [.closeHandled, .closed, .stop .disconnecting false, .closeSend true] :=
    ⟨before, htrace, by simp⟩
  exact ⟨w, _, hrun, hsince, List.mem_cons_self ..,
    disconnect_not_lost rfl hreach hsince (by decide) (List.mem_cons_self ..)⟩

/-- A disconnect while the ack of the handshake is being written. -/
def lostRun : List (List Bool × Label) :=
  plainStart.dropLast ++
    [([], .disconnectSet), ([], .disconnectSend), ([], .writeDone 0 true), ([], .closeAsync)]

-- the 256 buckets of the request map are walked through
set_option maxRecDepth 2048 in
/-- The ack makes the client `WORKING`, and the message of `close_async` reconnects it. -/
theorem disconnect_lostRun :
    ∃ w since, runSteps (plainConfig true) lostRun plainInit = some w ∧
      Reachable (plainConfig true) w ∧ SinceDisconnect w.trace false since ∧ .closeHandled ∈ since ∧
      ¬ (w.state = .closed ∧ w.reconnectTimer.active = false) := by
  have hrun : ∃ w delay write before, runSteps (plainConfig true) lostRun plainInit = some w ∧
      w.trace = [.closeHandled, .reset delay, .stop .working false, .connectCb ⟨0, .user⟩ 0,
        .acked .disconnecting, .writeDone write 0 true false, .closeSend true] ++ .disconnect false :: before ∧
      w.state = .inited := ⟨_, _, _, _, rfl, rfl, rfl⟩
  obtain ⟨w, delay, write, before, hrun, htrace, hstate⟩ := hrun
  refine ⟨w, _, hrun, reachable_of_run hrun,
    ⟨before, htrace, by simp⟩, List.mem_cons_self .., ?_⟩
  rw [hstate]
  exact fun h => absurd h.1 (by decide)

end Libpomelo
