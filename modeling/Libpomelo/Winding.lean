import Libpomelo.Closed
import Libpomelo.Intervals
import Libpomelo.CallbackOwed

/-!
# A closed client winds down

`pc_client_join` and `pc_client_destroy` wait for the worker, and the worker is over when its loop
has nothing left to wait for. A client that is `CLOSED` adds nothing to that: it writes nothing,
accepts nothing and connects to nobody, and every completion that libuv still delivers takes one
thing away, whatever the callbacks do that run in it. So the turns that the worker has ahead of it
can be counted (`World.ahead`), the count falls with each of them, and as long as it is not zero
one of them can be taken.
-/

namespace Libpomelo

/-- What the loop waits for apart from its handles. -/
def World.load (w : World) : ℕ := w.connects.length + w.writes.length + w.asyncs.length

/-- The turn completes something. -/
def Label.completes : Label → Bool
  | .tcpConnect _ _ | .writeDone _ _ | .asyncWrite _ => true
  | _ => false

/-- The turn takes the worker of a closed client towards its end. -/
def Label.advances : Label → Bool
  | .loopEnd | .workerTail => true
  | l => l.completes

/-- The turns that the worker of a closed client has ahead of it: the completions, the end of the
loop, and the two parts of the tail. -/
def World.ahead (w : World) : ℕ :=
  match w.worker with
  | .looping => w.load + 3
  | .ended => 2
  | .emitted => 1
  | .none | .exited | .joined => 0

/-! ## The reconnect timer -/

/-- The reconnect timer runs only with reconnect, and does not outlive a closed client. -/
def World.Unarmed (cfg : Config) (w : World) : Prop :=
  w.reconnectTimer.active = true →
    cfg.enableReconnect = true ∧ (w.state = .closed → w.reconnectClosed = true)

section Timer

variable {cfg : Config} {begins : Bool} {w w' : World}

theorem World.Unarmed.of_eq (h : w.Unarmed cfg) (htimer : w'.reconnectTimer = w.reconnectTimer)
    (hclosed : w'.reconnectClosed = w.reconnectClosed)
    (hstate : w'.state = .closed → w.state = .closed) : w'.Unarmed cfg := by
  rw [World.Unarmed, htimer, hclosed]
  exact fun hactive => ⟨(h hactive).1, fun hst => (h hactive).2 (hstate hst)⟩

/-- A timer that was stopped, or fired without an interval of its own, does not run. -/
theorem World.Unarmed.of_inactive (h : w.reconnectTimer.active = false) : w.Unarmed cfg := by
  intro hactive
  rw [h] at hactive
  exact absurd hactive (by decide)

theorem Move.unarmed (h : Move cfg begins w w') (hw : w.Unarmed cfg) : w'.Unarmed cfg := by
  cases h with
  | inert w' hin _ =>
    rw [hin.eq]
    exact hw.of_eq rfl rfl id
  | shook w' _ _ hin _ _ _ =>
    rw [hin.eq]
    exact hw.of_eq rfl rfl id
  | reset _ hcfg => exact fun _ => ⟨hcfg, fun hst => absurd hst (by simp [World.note])⟩
  | fireTimer hactive =>
    intro _
    exact hw hactive
  | stopTimer => exact .of_inactive rfl
  | closeInited hcfg _ =>
    intro hactive
    obtain ⟨hyes, -⟩ := hw hactive
    rw [hcfg] at hyes
    exact absurd hyes (by decide)
  | close =>
    intro hactive
    -- without reconnect the timer is left as it is, and does not run
    by_cases hcfg : cfg.enableReconnect = true
    · simp [hcfg, uvTimerStop] at hactive
    · simp only [if_neg hcfg] at hactive
      exact absurd (hw hactive).1 hcfg
  | disconnect => exact hw.of_eq rfl rfl fun hst => absurd hst (by simp [disconnectSet, World.note])
  | _ => exact hw.of_eq rfl rfl id

theorem kept_unarmed : Kept cfg (World.Unarmed cfg) where
  init _ _ := .of_inactive rfl
  link _ _ hw hlink := by
    cases hlink with
    | move hm => exact hm.unarmed hw
    | connecting | connected | acked =>
      exact hw.of_eq rfl rfl fun hst => absurd hst (by simp [transportStart, World.note])
    | _ => exact hw.of_eq rfl rfl id
  threads _ _ _ _ hw := hw.of_eq rfl rfl id
  start _ _ hw _ _ := hw.of_eq rfl rfl id
  finish _ hw := hw.of_eq rfl rfl id
  loopEnd w hw hidle := by
    intro hactive
    refine ⟨(hw hactive).1, fun _ => ?_⟩
    simp only [loopIdle, Bool.and_eq_true, Bool.or_eq_true, Bool.not_eq_true'] at hidle
    rcases hidle.2 with hoff | hclosed
    · exact absurd hactive (by rw [hoff]; decide)
    · exact hclosed

end Timer

/-! ## Moves -/

/-- The client rests in the middle of a turn, without a transport, and the loop waits for no more
than so many things. -/
structure World.Winds (w₀ : World) (n : ℕ) (w : World) : Prop extends w₀.AtRest w where
  /-- no transport -/
  transport : w.transport = none
  /-- what the loop waits for -/
  load : w.load ≤ n

section Moves

variable {cfg : Config} {begins : Bool} {w₀ w w' : World} {n : ℕ}

/-- Taking from a queue makes the load smaller. -/
theorem World.load_le (hconnects : w'.connects.length ≤ w.connects.length)
    (hwrites : w'.writes.length ≤ w.writes.length) (hasyncs : w'.asyncs.length ≤ w.asyncs.length) :
    w'.load ≤ w.load :=
  Nat.add_le_add (Nat.add_le_add hconnects hwrites) hasyncs

/-- **One move** adds nothing to what the loop of a closed client waits for: an accepted request and
a connect need another state, a write needs a transport, and a request that is written one that
works. -/
theorem Move.load_le (h : Move cfg begins w w') (hw : w₀.AtRest w) (hnone : w.transport = none) :
    w'.load ≤ w.load := by
  have hsome : ∀ {t : ℕ}, w.transport ≠ some t := by
    intro t
    rw [hnone]
    simp
  have hidle : ∀ {t : ℕ}, w.working t ≠ true := by
    intro t
    rw [hw.idle t]
    decide
  cases h with
  | inert w' hin _ =>
    rw [hin.eq]
    exact le_rfl
  | shook w' _ _ hin _ _ _ =>
    rw [hin.eq]
    exact le_rfl
  | accept _ _ ht => exact absurd ht hsome
  | queueWrite _ _ _ ht => exact absurd ht hsome
  | sendNotify _ _ _ _ _ _ ht => exact absurd ht hsome
  | enlist _ _ _ _ _ hwork => exact absurd hwork hidle
  | popWrite i | notifyDone i =>
    exact World.load_le le_rfl (List.eraseIdx_sublist _ i).length_le le_rfl
  | popAsync i | asyncRequestCb i | asyncNotifyCb i =>
    exact World.load_le le_rfl le_rfl (List.eraseIdx_sublist _ i).length_le
  | _ => exact le_rfl

theorem Link.load_le (h : Link cfg w w') (hw : w₀.AtRest w) (hnone : w.transport = none) :
    w'.load ≤ w.load := by
  have hstate := hw.state
  cases h with
  | move hm => exact hm.load_le hw hnone
  | launch req hst | connected _ _ _ _ hst =>
    rw [hstate] at hst
    exact absurd hst (by decide)
  | greet _ _ ht =>
    rw [hnone] at ht
    exact absurd ht (by simp)
  | stale i | refused i => exact World.load_le (List.eraseIdx_sublist _ i).length_le le_rfl le_rfl
  | _ => exact le_rfl

/-- Only a connect that succeeds brings a transport. -/
theorem Link.transport_none (h : Link cfg w w') (hw : w₀.AtRest w) (hnone : w.transport = none) :
    w'.transport = none := by
  cases h with
  | move hm =>
    by_contra hne
    obtain ⟨t, ht⟩ := Option.ne_none_iff_exists'.mp hne
    have hold := hm.transport ht
    rw [hnone] at hold
    exact absurd hold (by simp)
  | connected _ _ _ _ hst =>
    rw [hw.state] at hst
    exact absurd hst (by decide)
  | _ => exact hnone

/-- **Many moves**, if none of them rouses the client. -/
theorem World.Winds.links (hw : w₀.Winds n w) (h : Links cfg w w')
    (hquiet : w'.trace.countP (Event.rouses cfg) = w.trace.countP (Event.rouses cfg)) :
    w₀.Winds n w' := by
  refine preserved_of_level (μ := fun w => w.trace.countP (Event.rouses cfg)) ?_ ?_ h.seq hquiet hw
  · exact fun _ _ hl => hl.trace_suffix.sublist.countP_le
  · intro _ _ hwinds hl hlevel
    have hrest := hwinds.toAtRest
    exact ⟨hl.atRest hrest hlevel, hl.transport_none hrest hwinds.transport,
      (hl.load_le hrest hwinds.transport).trans hwinds.load⟩

end Moves

/-! ## Completions -/

section Completions

variable {cfg : Config} {w₀ w w' : World}

/-- **A completion takes one thing away**, and then does what moves do. -/
def Completes (cfg : Config) (w₀ w w' : World) : Prop :=
  ∃ popped, w₀.AtRest popped ∧ popped.transport = none ∧ popped.load + 1 = w.load ∧
    popped.worker = w.worker ∧ w.trace <:+ popped.trace ∧ Links cfg popped w'

/-- The client has one thing less to wait for, and reports. -/
theorem Completes.of_callback {popped : World} {e : Event} (hrest : w₀.AtRest popped)
    (hnone : popped.transport = none) (hload : popped.load + 1 = w.load)
    (hworker : popped.worker = w.worker) (htrace : w.trace <:+ popped.trace)
    (he : e.misuses = false) : Completes cfg w₀ w (callback cfg e popped) :=
  ⟨popped.note e, hrest.note he, hnone, hload, hworker, htrace.trans (List.suffix_cons _ _),
    (moves_callback e popped).links⟩

/-- The result of a TCP connect comes too late. -/
theorem completes_tcpConnect {i t : ℕ} {req : ConnReq} (hi : w.connects[i]? = some (t, req))
    (hw : w₀.AtRest w) (hnone : w.transport = none) (status : ℤ) :
    Completes cfg w₀ w (onTcpConnect cfg t req status { w with connects := w.connects.eraseIdx i }) := by
  have hlen := List.length_eraseIdx_add_one (List.getElem?_eq_some_iff.mp hi).1
  have hlate : w.state ≠ .connecting := by
    rw [hw.state]
    decide
  rw [onTcpConnect, if_pos hlate]
  have hrest : w₀.AtRest { w with connects := w.connects.eraseIdx i, connReq := none } :=
    hw.of_eq rfl rfl rfl rfl rfl id rfl (fun _ => id) rfl rfl
  refine ⟨_, hrest.note (e := .connectCb req (-1)) rfl, hnone, ?_, rfl, List.suffix_cons _ _,
    (moves_connectCb req (-1) _).links⟩
  simp only [World.load, World.note]
  omega

/-- A write on a dead transport is called back, if it is one of the user's. -/
theorem completes_writeDone {i : ℕ} {write : Write} (hi : w.writes[i]? = some write)
    (hw : w₀.AtRest w) (hnone : w.transport = none) (status : ℤ) :
    Completes cfg w₀ w (writeCb cfg write status { w with writes := w.writes.eraseIdx i }) := by
  have hlen := List.length_eraseIdx_add_one (List.getElem?_eq_some_iff.mp hi).1
  have hload : { w with writes := w.writes.eraseIdx i }.load + 1 = w.load := by
    simp only [World.load]
    omega
  have hpop : w₀.AtRest { w with writes := w.writes.eraseIdx i } :=
    hw.of_eq rfl rfl rfl rfl rfl id rfl (fun _ => id) rfl rfl
  rw [writeCb]
  generalize hdone : Event.writeDone write status _ _ = done
  have hrest : w₀.AtRest ({ w with writes := w.writes.eraseIdx i }.note done) :=
    hpop.note (by rw [← hdone]; rfl)
  have htrace : w.trace <:+ ({ w with writes := w.writes.eraseIdx i }.note done).trace :=
    List.suffix_cons _ _
  have hidle : ∀ t, ¬ ({ w with writes := w.writes.eraseIdx i }.note done).working t = true := by
    intro t
    rw [hrest.idle t]
    decide
  split
  · rw [handshakeReqCb, if_pos (hidle _)]
    exact ⟨_, hrest, hnone, hload, rfl, htrace, .refl⟩
  · rw [handshakeAckCb, if_pos (hidle _)]
    exact ⟨_, hrest, hnone, hload, rfl, htrace, .refl⟩
  · refine ⟨_, hrest, hnone, hload, rfl, htrace, ?_⟩
    rw [heartbeatReqCb]
    split
    · split
      · exact (moves_clientStop _).links
      · exact (Moves.halt _).links
    · exact .refl
  · rw [onRequest, if_pos (hidle _)]
    exact .of_callback hrest hnone hload rfl htrace rfl
  · rw [onNotify, if_pos (hidle _)]
    exact .of_callback hrest hnone hload rfl htrace rfl

/-- So is a request or notify that was not written before its transport died. -/
theorem completes_asyncWrite {i : ℕ} {req : TcpReq} (hi : w.asyncs[i]? = some req)
    (hw : w₀.AtRest w) (hnone : w.transport = none) :
    Completes cfg w₀ w (asyncWriteCb cfg req { w with asyncs := w.asyncs.eraseIdx i }) := by
  have hlen := List.length_eraseIdx_add_one (List.getElem?_eq_some_iff.mp hi).1
  have hload : { w with asyncs := w.asyncs.eraseIdx i }.load + 1 = w.load := by
    simp only [World.load]
    omega
  have hpop : w₀.AtRest { w with asyncs := w.asyncs.eraseIdx i } :=
    hw.of_eq rfl rfl rfl rfl rfl id rfl (fun _ => id) rfl rfl
  rw [asyncWriteCb]
  generalize hfired : Event.asyncFired req _ = fired
  have hrest : w₀.AtRest ({ w with asyncs := w.asyncs.eraseIdx i }.note fired) :=
    hpop.note (by rw [← hfired]; rfl)
  have hidle : ¬ ({ w with asyncs := w.asyncs.eraseIdx i }.note fired).working req.transport = true := by
    rw [hrest.idle]
    decide
  split
  · rw [request, if_pos hidle]
    exact .of_callback hrest hnone hload rfl (List.suffix_cons _ _) rfl
  · rw [notify, if_pos hidle]
    exact .of_callback hrest hnone hload rfl (List.suffix_cons _ _) rfl

theorem loopStep_completes {l : Label} (hl : l.completes = true) (hw : w₀.AtRest w)
    (hnone : w.transport = none) (h : loopStep cfg w l = some w') : Completes cfg w₀ w w' := by
  cases l with
  | tcpConnect i ok =>
    simp only [loopStep] at h
    split at h
    · next t req hi =>
      simp only [Option.ite_none_right_eq_some, Option.some.injEq] at h
      obtain ⟨-, rfl⟩ := h
      exact completes_tcpConnect hi hw hnone (uvStatus ok)
    · exact absurd h (by simp)
  | writeDone i ok =>
    simp only [loopStep] at h
    split at h
    · next write hi =>
      simp only [Option.ite_none_right_eq_some, Option.some.injEq] at h
      obtain ⟨-, rfl⟩ := h
      exact completes_writeDone hi hw hnone (uvStatus ok)
    · exact absurd h (by simp)
  | asyncWrite i =>
    simp only [loopStep] at h
    split at h
    · next req hi =>
      obtain rfl := Option.some.inj h
      exact completes_asyncWrite hi hw hnone
    · exact absurd h (by simp)
  | _ => exact absurd hl Bool.false_ne_true

end Completions

/-! ## Turns -/

section Turns

variable {cfg : Config} {w₀ w w' : World} {supply : List Bool} {l : Label}

theorem World.ahead_le (hworker : w'.worker = w.worker) (hload : w'.load ≤ w.load) :
    w'.ahead ≤ w.ahead := by
  rw [World.ahead, World.ahead, hworker]
  split
  · exact Nat.add_le_add_right hload 3
  all_goals exact le_rfl

/-- What happens at the end of the worker is up to the worker. -/
theorem step_tail (hrun : w.halted = none) (huser : w.user ≠ .freed) :
    step cfg supply .workerTail w = workerTail cfg { w with supply := supply } := by
  rw [step, if_neg (by simp [hrun, huser])]
  rfl

/-- So is what happens in its loop. -/
theorem step_loop (hl : l.completes = true ∨ l = .loopEnd) (hrun : w.halted = none)
    (huser : w.user ≠ .freed) :
    step cfg supply l w =
      if w.worker = .looping then loopStep cfg { w with supply := supply } l else none := by
  rw [step, if_neg (by simp [hrun, huser])]
  cases l with
  | tcpConnect | writeDone | asyncWrite | loopEnd => rfl
  | _ => exact absurd hl (by simp [Label.completes])

theorem step_user (h : step cfg supply l w = some w') : w.user ≠ .freed := by
  intro huser
  rw [step, if_pos (.inr huser)] at h
  exact absurd h (by simp)

/-- Nothing but the turns that advance it takes the worker on, apart from the user who joins it. -/
theorem Turn.worker (h : Turn cfg w l w') (hl : l.advances = false) (hnone : w.worker ≠ .none) :
    w'.worker = w.worker ∨ w'.worker = .joined := by
  cases h with
  | moves _ hm => exact .inl hm.framed.worker
  | read t _ _ hm => exact .inl hm.framed.worker
  | user pc _ hm _ => exact .inl hm.framed.worker
  | reconnectTimer _ hact =>
    exact .inl (@links_turn_reconnectTimer cfg w hact).threads.1
  | join => exact .inr rfl
  | joinNone _ _ hworker => exact absurd hworker hnone
  | connect _ _ hworker => exact absurd hworker hnone
  | free =>
    obtain ⟨w₁, hm, heq | heq⟩ := clientFree_moves cfg w
    · rw [heq]
      exact .inl hm.framed.worker
    · rw [heq]
      exact .inl hm.framed.worker
  | tcpConnect | handshakeReq | handshakeAck | loopEnd | tailEmit | tailExit =>
    exact absurd hl (by simp [Label.advances, Label.completes])

/-- **A turn** of either thread adds nothing to what the loop of a closed client waits for. -/
theorem Shape.load_le (h : Shape cfg w w') (hw : w₀.AtRest w) (hnone : w.transport = none)
    (hquiet : w'.trace.countP (Event.rouses cfg) = w.trace.countP (Event.rouses cfg)) :
    w'.load ≤ w.load := by
  have hwinds : w₀.Winds w.load w := ⟨hw, hnone, le_rfl⟩
  cases h with
  | links worker user hl => exact (hwinds.links hl hquiet).load
  | read t hwork =>
    rw [hw.idle t] at hwork
    exact absurd hwork (by decide)
  | join | loopEnd => exact le_rfl

/-- A completion leaves the worker in its loop, with one thing less to wait for. -/
theorem Completes.ahead_lt (h : Completes cfg w₀ w w') (hworker : w.worker = .looping)
    (hquiet : w'.trace.countP (Event.rouses cfg) = w.trace.countP (Event.rouses cfg)) :
    w'.worker = .looping ∧ w'.ahead + 1 ≤ w.ahead := by
  obtain ⟨popped, hrest, hnone, hload, hpopped, htrace, hl⟩ := h
  have hkept : w'.worker = .looping := (hl.threads.1.trans hpopped).trans hworker
  have hlevel : w'.trace.countP (Event.rouses cfg) = popped.trace.countP (Event.rouses cfg) := by
    apply le_antisymm
    · rw [hquiet]
      exact htrace.sublist.countP_le
    · exact hl.trace_suffix.sublist.countP_le
  have hwinds : w₀.Winds popped.load popped := ⟨hrest, hnone, le_rfl⟩
  have hless := (hwinds.links hl hlevel).load
  refine ⟨hkept, ?_⟩
  simp only [World.ahead, hkept, hworker]
  omega

theorem ahead_loopEnd (hworker : w.worker = .looping) (h : loopStep cfg w .loopEnd = some w') :
    w'.worker = .ended ∧ w'.ahead + 1 ≤ w.ahead := by
  simp only [loopStep, Option.ite_none_right_eq_some, Option.some.injEq] at h
  obtain ⟨-, rfl⟩ := h
  refine ⟨rfl, ?_⟩
  simp only [World.ahead, hworker]
  omega

theorem ahead_workerTail (h : workerTail cfg w = some w') :
    w'.worker ≠ .none ∧ w'.ahead + 1 ≤ w.ahead := by
  rw [workerTail] at h
  split at h
  · next hworker =>
    obtain rfl := Option.some.inj h
    simp [World.ahead, hworker]
  · next hworker =>
    obtain rfl := Option.some.inj h
    simp [World.ahead, hworker]
  · exact absurd h (by simp)

end Turns

/-! ## Runs -/

section Runs

variable {cfg : Config} {w w' : World} {supply : List Bool}

/-- A transport goes with the client that had it. -/
theorem transport_none_of_closed (h : Reachable cfg w) (hclosed : w.state = .closed) :
    w.transport = none := by
  obtain ⟨⟨hlife, -⟩, hpaces⟩ := kept_paces.reach h
  by_contra hne
  obtain ⟨t, ht⟩ := Option.ne_none_iff_exists'.mp hne
  have hwork := hpaces.live t ht
  rw [hlife.idle (.inr (.inr hclosed)) t] at hwork
  exact absurd hwork (by decide)

/-- In front of a turn, a closed client rests that nobody is about to disconnect. -/
theorem atRest_of_closed (h : Reachable cfg w) (hclosed : w.state = .closed)
    (hworker : w.worker ≠ .none) (hrun : w.halted = none)
    (huser : w.user ≠ .disconnecting ∧ w.user ≠ .destroyDisconnecting) : w.AtRest w := by
  refine ⟨closed_restsAs h hclosed hworker, ?_, reach_settled h hrun, huser⟩
  exact (kept_lifecycle.reach h).idle (.inr (.inr hclosed))

/-- **One turn** of a closed client that nobody rouses. The worker takes no step that is not
counted, and none of the others adds to the count. -/
theorem step_ahead {l : List Bool × Label} (h : Reachable cfg w) (hclosed : w.state = .closed)
    (hworker : w.worker ≠ .none) (hstep : step cfg l.1 l.2 w = some w')
    (hok : Undisturbed cfg w l w') :
    w'.worker ≠ .none ∧ l.2.advances.toNat + w'.ahead ≤ w.ahead := by
  have hhalt := step_halted hstep
  have huser := step_user hstep
  obtain ⟨hstay, hstay', hquiet⟩ := hok
  have hnone := transport_none_of_closed h hclosed
  have hrest : w.AtRest { w with supply := l.1 } :=
    (atRest_of_closed h hclosed hworker hhalt ⟨hstay, hstay'⟩).of_eq rfl rfl rfl rfl rfl id rfl
      (fun _ => id) rfl rfl
  have hcount : w'.ahead + 1 ≤ w.ahead → l.2.advances.toNat + w'.ahead ≤ w.ahead := by
    have hone : l.2.advances.toNat ≤ 1 := Bool.toNat_le _
    omega
  by_cases hcompletes : l.2.completes = true
  · rw [step_loop (.inl hcompletes) hhalt huser] at hstep
    obtain ⟨hlooping, hhandler⟩ := Option.ite_none_right_eq_some.mp hstep
    obtain ⟨hkept, hless⟩ :=
      (loopStep_completes hcompletes hrest hnone hhandler).ahead_lt hlooping hquiet
    exact ⟨by rw [hkept]; decide, hcount hless⟩
  by_cases hends : l.2 = .loopEnd
  · rw [hends, step_loop (.inr rfl) hhalt huser] at hstep
    obtain ⟨hlooping, hhandler⟩ := Option.ite_none_right_eq_some.mp hstep
    obtain ⟨hended, hless⟩ := @ahead_loopEnd cfg { w with supply := l.1 } w' hlooping hhandler
    exact ⟨by rw [hended]; decide, hcount hless⟩
  by_cases htail : l.2 = .workerTail
  · rw [htail, step_tail hhalt huser] at hstep
    obtain ⟨hpast, hless⟩ := ahead_workerTail hstep
    exact ⟨hpast, hcount hless⟩
  · have hidle : l.2.advances = false := by
      cases hl : l.2 with
      | loopEnd => exact absurd hl hends
      | workerTail => exact absurd hl htail
      | _ =>
        rw [hl] at hcompletes
        simpa [Label.advances] using hcompletes
    have hturn := step_turn (reach_reading h) hstep
    have hload := hturn.shape.load_le hrest hnone hquiet
    rw [hidle, Bool.toNat_false, Nat.zero_add]
    rcases hturn.worker hidle hworker with hsame | hjoined
    · exact ⟨by rw [hsame]; exact hworker, World.ahead_le hsame hload⟩
    · refine ⟨by rw [hjoined]; decide, ?_⟩
      rw [World.ahead, hjoined]
      exact Nat.zero_le _

/-- **A run** of turns that do not rouse the client. -/
theorem runSteps_ahead : ∀ (ls : List (List Bool × Label)) {w : World}, Reachable cfg w →
    w.state = .closed → w.worker ≠ .none → RunMeets cfg (Undisturbed cfg) ls w →
    runSteps cfg ls w = some w' →
    (Reachable cfg w' ∧ w'.state = .closed ∧ w'.worker ≠ .none) ∧
      ls.countP (fun l => l.2.advances) + w'.ahead ≤ w.ahead := by
  intro ls
  induction ls with
  | nil =>
    intro w h hclosed hworker _ hrun
    obtain rfl := Option.some.inj hrun
    exact ⟨⟨h, hclosed, hworker⟩, (Nat.zero_add _).le⟩
  | cons l ls ih =>
    intro w h hclosed hworker hok hrun
    rw [runSteps] at hrun
    rcases hstep : step cfg l.1 l.2 w with _ | w₁
    · rw [hstep] at hrun
      exact absurd hrun (by simp)
    · rw [hstep] at hrun
      obtain ⟨hl, hls⟩ := hok w₁ hstep
      have hrests := step_restsAs h hstep hl (closed_restsAs h hclosed hworker)
      obtain ⟨hworker', hahead⟩ := step_ahead h hclosed hworker hstep hl
      have hreach : Reachable cfg w₁ := .step h hstep trivial
      obtain ⟨hend, hrest⟩ := ih hreach hrests.state hworker' hls hrun
      refine ⟨hend, ?_⟩
      rw [countP_cons_toNat]
      omega

/-- When nothing is on its way any more, the loop of a closed client ends. -/
theorem loopIdle_of_closed (h : Reachable cfg w) (hclosed : w.state = .closed)
    (hworker : w.worker ≠ .none) (hload : w.load = 0) : loopIdle w = true := by
  have hrests := closed_restsAs h hclosed hworker
  have hidle := (kept_lifecycle.reach h).idle (.inr (.inr hclosed))
  have htransports : w.transports.all (· ≠ .working) = true := by
    rw [List.all_eq_true]
    intro s hs
    obtain ⟨t, ht⟩ := List.mem_iff_getElem?.mp hs
    have hdead := hidle t
    rw [World.working, decide_eq_false_iff_not, ht] at hdead
    simpa using hdead
  have htimer : (!w.reconnectTimer.active || w.reconnectClosed) = true := by
    rw [Bool.or_eq_true, Bool.not_eq_true']
    refine or_iff_not_imp_left.mpr fun hactive => ?_
    exact (kept_unarmed.reach h (by simpa using hactive)).2 hclosed
  have hqueues : w.connects = [] ∧ w.writes = [] ∧ w.asyncs = [] := by
    simp only [World.load, Nat.add_eq_zero_iff, List.length_eq_zero_iff] at hload
    exact ⟨hload.1.1, hload.1.2, hload.2⟩
  rw [loopIdle, hrests.closeAsync, hqueues.1, hqueues.2.1, hqueues.2.2, htransports, htimer,
    hrests.heartbeatTimer, hrests.timeoutTimer, hrests.handshakeTimer]
  rfl

/-- Whatever completes may complete, if only with an error. -/
theorem loopStep_enabled (hload : w.load ≠ 0) :
    ∃ l : Label, l.completes = true ∧
      ∀ supply, (loopStep cfg { w with supply := supply } l).isSome = true := by
  rcases hconnects : w.connects with _ | ⟨⟨t, req⟩, connects⟩
  · rcases hwrites : w.writes with _ | ⟨write, writes⟩
    · rcases hasyncs : w.asyncs with _ | ⟨req, asyncs⟩
      · exact absurd (by simp [World.load, hconnects, hwrites, hasyncs]) hload
      · exact ⟨.asyncWrite 0, rfl, fun _ => by simp [loopStep]⟩
    · exact ⟨.writeDone 0 false, rfl, fun _ => by simp [loopStep, deliverable]⟩
  · exact ⟨.tcpConnect 0 false, rfl, fun _ => by simp [loopStep, deliverable]⟩

/-- **The worker of a closed client is not stuck**: first what is on its way completes, then its loop
and its tail come to their end. -/
theorem step_enabled (h : Reachable cfg w) (hclosed : w.state = .closed) (hahead : 0 < w.ahead)
    (hrun : w.halted = none) (huser : w.user ≠ .freed) :
    ∃ l : Label, l.advances = true ∧ ∀ supply, (step cfg supply l w).isSome = true := by
  cases hworker : w.worker with
  | looping =>
    by_cases hload : w.load = 0
    · have hidle : loopIdle w = true := loopIdle_of_closed h hclosed (by rw [hworker]; decide) hload
      refine ⟨.loopEnd, rfl, fun supply => ?_⟩
      have hend : loopIdle { w with supply := supply } = true := hidle
      rw [step_loop (.inr rfl) hrun huser, if_pos hworker, loopStep, if_pos hend]
      rfl
    · obtain ⟨l, hl, henabled⟩ := @loopStep_enabled cfg w hload
      refine ⟨l, ?_, fun supply => ?_⟩
      · cases l with
        | tcpConnect | writeDone | asyncWrite => rfl
        | _ => exact absurd hl Bool.false_ne_true
      · rw [step_loop (.inl hl) hrun huser, if_pos hworker]
        exact henabled supply
  | ended | emitted =>
    refine ⟨.workerTail, rfl, fun supply => ?_⟩
    rw [step_tail hrun huser]
    simp only [workerTail, hworker, Option.isSome_some]
  | none | exited | joined =>
    rw [World.ahead, hworker] at hahead
    exact absurd hahead (lt_irrefl 0)

/-- **A closed client winds down.** Its worker has a number of turns ahead of it. In every run that
does not rouse the client, each turn that the worker takes towards its end makes them fewer, and
nothing makes them more; as long as there are any, one of them can be taken, and when there are
none, the worker is over. -/
theorem winds_down (h : Reachable cfg w) (hclosed : w.state = .closed) (hworker : w.worker ≠ .none)
    {ls : List (List Bool × Label)} (hok : RunMeets cfg (Undisturbed cfg) ls w)
    (hrun : runSteps cfg ls w = some w') :
    ls.countP (fun l => l.2.advances) + w'.ahead ≤ w.ahead ∧
      (w'.ahead = 0 ↔ w'.worker = .exited ∨ w'.worker = .joined) ∧
      (0 < w'.ahead → w'.halted = none → w'.user ≠ .freed →
        ∃ l : Label, l.advances = true ∧ ∀ supply, (step cfg supply l w').isSome = true) := by
  obtain ⟨⟨hreach, hclosed', hworker'⟩, hahead⟩ := runSteps_ahead ls h hclosed hworker hok hrun
  refine ⟨hahead, ?_, step_enabled hreach hclosed'⟩
  cases hend : w'.worker with
  | none => exact absurd hend hworker'
  | _ => simp [World.ahead, hend]

end Runs

/-- A client is closed with a notify and a request on their way. -/
def abandonedRun : List (List Bool × Label) :=
  plainStart ++ [([], .call (.notify [97] (some (.obj [])))), ([], .call (.request [97] (some (.obj [])))),
    ([], .call .stop)]

/-- Both are called back, and the worker ends. -/
def windingRun : List (List Bool × Label) :=
  [([], .asyncWrite 1), ([], .tcpRead 0 [] .nothing), ([], .asyncWrite 0), ([], .loopEnd),
    ([], .workerTail), ([], .workerTail)]

theorem winds_down_windingRun :
    ∃ w w', runSteps (plainConfig false) abandonedRun plainInit = some w ∧ w.ahead = 5 ∧
      runSteps (plainConfig false) windingRun w = some w' ∧ w'.worker = .exited ∧
      windingRun.countP (fun l => l.2.advances) + w'.ahead ≤ w.ahead := by
  have hrun : ∃ w w', runSteps (plainConfig false) abandonedRun plainInit = some w ∧
      w.state = .closed ∧ w.worker = .looping ∧ w.ahead = 5 ∧
      runSteps (plainConfig false) windingRun w = some w' ∧ w'.worker = .exited ∧
      RunMeets (plainConfig false) (Undisturbed (plainConfig false)) windingRun w :=
    ⟨_, _, rfl, rfl, rfl, rfl, rfl, rfl, by decide +kernel⟩
  obtain ⟨w, w', habandoned, hclosed, hworker, hahead, hwinding, hexited, hok⟩ := hrun
  refine ⟨w, w', habandoned, hahead, hwinding, hexited, ?_⟩
  exact (winds_down (reachable_of_run habandoned) hclosed (by rw [hworker]; decide) hok hwinding).1

end Libpomelo
