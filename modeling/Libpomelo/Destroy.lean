import Libpomelo.Turns

/-!
# The client is freed after its worker

`pc_client_destroy` decides from `client->state` alone whether there is a worker to wait
for: it goes straight to the end when it finds `INITED`, or on a second look `CLOSED`.
But `INITED` is also the state of a reconnecting client between two attempts, and
`CLOSED` is set long before the worker is over.

Otherwise it disconnects and joins. So the client is freed with its worker gone in every
run in which the user's thread has seen to the worker itself where a look skips the join
(`LooksTrue`, `freed_worker`): either no connect was ever accepted, and without that there is
no worker (`World.Quits.started`), or `pc_client_join` has returned, and no other worker comes
after it (`World.Quits.joined`). At the first look only a client needs this that was reset
before: no other one with a worker is `INITED` (`World.Quits.inited`).
-/

namespace Libpomelo

/-- There is no worker thread. -/
def World.Alone (w : World) : Prop := w.worker = .none ∨ w.worker = .joined

instance (w : World) : Decidable w.Alone := inferInstanceAs (Decidable (_ ∨ _))

/-- A connect was accepted. -/
def Event.connects : Event → Bool
  | .connectAccepted _ => true
  | _ => false

/-- `pc_client_join` has returned. -/
def Event.joins : Event → Bool
  | .joined => true
  | _ => false

/-- The client was reset for a reconnect. -/
def Event.resets : Event → Bool
  | .reset _ => true
  | _ => false

/-- The user's thread never connected the client, or it has called `pc_client_join`. -/
def World.SeenTo (w : World) : Prop :=
  (∀ e ∈ w.trace, e.connects = false) ∨ ∃ e ∈ w.trace, e.joins = true

instance (w : World) : Decidable w.SeenTo := inferInstanceAs (Decidable (_ ∨ _))

/-- Where a look of `pc_client_destroy` at the state skips the join, the user's thread has seen
to the worker: at the first look if the client was reset and is `INITED` again, at the second
if it is `CLOSED`. -/
def LooksTrue (w : World) (l : List Bool × Label) (_ : World) : Prop :=
  match l.2, w.user with
  | .destroy, .idle => w.state = .inited → (∃ e ∈ w.trace, e.resets = true) → w.SeenTo
  | .destroy, .destroyNotInited => w.state = .closed → w.SeenTo
  | _, _ => True

instance (w : World) (l : List Bool × Label) (w' : World) : Decidable (LooksTrue w l w') := by
  unfold LooksTrue
  split <;> infer_instance

/-! ## The threads -/

section Threads

variable {cfg : Config} {w w' : World}

/-- A client becomes `INITED` only by a reset, which leaves its mark. -/
theorem Link.reset_of_inited (h : Link cfg w w')
    (hw : w.state = .inited → ∃ e ∈ w.trace, e.resets = true) (hst : w'.state = .inited) :
    ∃ e ∈ w'.trace, e.resets = true := by
  have hmark : w.state = .inited → ∃ e ∈ w'.trace, e.resets = true := fun hbefore => by
    obtain ⟨e, he, hreset⟩ := hw hbefore
    exact ⟨e, h.trace_suffix.subset he, hreset⟩
  cases h with
  | move hm =>
    cases hm with
    | inert w' hin _ =>
      rw [hin.eq] at hst
      exact hmark hst
    | shook w' _ _ hin _ _ _ =>
      rw [hin.eq] at hst
      exact hmark hst
    | reset delay => exact ⟨.reset delay, List.mem_cons_self, rfl⟩
    | closeInited | close | disconnect => exact absurd hst (by simp [World.note, disconnectSet])
    | _ => exact hmark hst
  | connecting | connected | acked => exact absurd hst (by simp [World.note, transportStart])
  | _ => exact hmark hst

/-- A join leaves its mark only where the worker is joined. -/
theorem Link.joined (h : Link cfg w w') (hw : (∃ e ∈ w.trace, e.joins = true) → w.worker = .joined)
    (hjoins : ∃ e ∈ w'.trace, e.joins = true) : w.worker = .joined := by
  have hadds : ∀ newer, w'.trace = newer ++ w.trace → (∀ e ∈ newer, e.joins = false) →
      w.worker = .joined := by
    intro newer htrace hno
    obtain ⟨e, he, hjoin⟩ := hjoins
    rw [htrace] at he
    rcases List.mem_append.mp he with he | he
    · exact absurd (hjoin.symm.trans (hno e he)) (by decide)
    · exact hw ⟨e, he, hjoin⟩
  cases h with
  | move hm =>
    cases hm with
    | inert w' hin _ => exact hadds [] (by rw [hin.eq]; rfl) (by simp)
    | shook w' _ _ hin _ _ _ =>
      exact hadds [_] (by rw [World.note, hin.eq]; rfl) (by simp [Event.joins])
    | note e' hquiet =>
      cases e' with
      | joined => exact hquiet
      | _ => exact hadds [_] rfl (by simp [Event.joins])
    | notifyDone | close => exact hadds [_, _] rfl (by simp [Event.joins])
    | beginReset | accept | asyncRequestCb | asyncNotifyCb | release | respond | orphanCb | lateCb
    | reset | disconnect | closeHandled | queueWrite | sendNotify =>
      exact hadds [_] rfl (by simp [Event.joins])
    | _ => exact hadds [] rfl (by simp)
  | launch | greet | connectCb | acked => exact hadds [_] rfl (by simp [Event.joins])
  | _ => exact hadds [] rfl (by simp)

end Threads

/-! ## Turns -/

/-- **What destroy relies on.** At its end there is no worker any more. A client with a worker was
connected, and is `INITED` only after a reset; and once the worker was joined it stays so. -/
structure World.Quits (w : World) : Prop where
  /-- at the end of `pc_client_destroy` -/
  alone : w.user = .destroyFinally ∨ w.user = .freed → w.Alone
  /-- the first look -/
  inited : w.worker ≠ .none → w.state = .inited → ∃ e ∈ w.trace, e.resets = true
  /-- who has a worker was connected -/
  started : w.worker ≠ .none → ∃ e ∈ w.trace, e.connects = true
  /-- who has joined it has no other -/
  joined : (∃ e ∈ w.trace, e.joins = true) → w.worker = .joined

section Turns

variable {cfg : Config} {w w' : World}

/-- The user's own calls tell whether there is a worker. -/
theorem World.Quits.alone_of_seenTo (hw : w.Quits) (h : w.SeenTo) : w.Alone := by
  rcases h with hnever | hjoined
  · refine .inl (by_contra fun hnone => ?_)
    obtain ⟨e, he, hconnects⟩ := hw.started hnone
    exact absurd (hconnects.symm.trans (hnever e he)) (by decide)
  · exact .inr (hw.joined hjoined)

theorem World.Quits.links (hw : w.Quits) (h : Links cfg w w') : w'.Quits := by
  obtain ⟨hworker, huser⟩ := h.threads
  refine ⟨?_, ?_, ?_, ?_⟩
  · intro hend
    rw [World.Alone, hworker]
    rcases huser with huser | huser
    · rw [huser] at hend
      exact hw.alone hend
    · rw [huser] at hend
      exact absurd hend (by decide)
  · intro hnone
    rw [hworker] at hnone
    refine preserved_of_reflTransGen
      (P := fun v => v.state = .inited → ∃ e ∈ v.trace, e.resets = true) ?_ h.seq (hw.inited hnone)
    exact fun v v' hv hlink => hlink.reset_of_inited hv
  · intro hnone
    rw [hworker] at hnone
    obtain ⟨e, he, hconnects⟩ := hw.started hnone
    exact ⟨e, h.trace_suffix.subset he, hconnects⟩
  · refine preserved_of_reflTransGen
      (P := fun v => (∃ e ∈ v.trace, e.joins = true) → v.worker = .joined) ?_ h.seq hw.joined
    intro v v' hv hlink hjoins
    have hsame : v'.worker = v.worker := hlink.threads.1
    exact hsame.trans (hlink.joined hv hjoins)

/-- An event is recorded that is not the return of a join. -/
theorem World.Quits.noted {e : Event} (hw : w.Quits) (he : e.joins = false) : (w.note e).Quits := by
  refine ⟨hw.alone, fun hnone hst => ?_, fun hnone => ?_, ?_⟩
  · obtain ⟨e', he', hreset⟩ := hw.inited hnone hst
    exact ⟨e', List.mem_cons_of_mem _ he', hreset⟩
  · obtain ⟨e', he', hconnects⟩ := hw.started hnone
    exact ⟨e', List.mem_cons_of_mem _ he', hconnects⟩
  · rintro ⟨e', he', hjoin⟩
    rcases List.mem_cons.mp he' with rfl | he'
    · exact absurd (hjoin.symm.trans he) (by decide)
    · exact hw.joined ⟨e', he', hjoin⟩

/-- The worker goes on: the user's thread is not at the end of `pc_client_destroy`. -/
theorem World.Quits.tail {worker worker' : Worker} (hw : w.Quits) (h : w.worker = worker)
    (hnone : worker ≠ .none) (hjoined : worker ≠ .joined) : { w with worker := worker' }.Quits := by
  have hlive : w.worker ≠ .none := by rwa [h]
  refine ⟨?_, fun _ => hw.inited hlive, fun _ => hw.started hlive, ?_⟩
  · intro hend
    have halone : w.worker = .none ∨ w.worker = .joined := hw.alone hend
    rw [h] at halone
    exact absurd halone (not_or.2 ⟨hnone, hjoined⟩)
  · intro hjoins
    exact absurd (h.symm.trans (hw.joined hjoins)) hjoined

/-- The user's thread goes on, to the end only where the condition vouches for it. -/
theorem UserGoes.alone {l : Label} {pc : UserPc} {supply : List Bool} (h : UserGoes w l pc)
    (hw : w.Quits) (hok : LooksTrue w (supply, l) w') (hpc : pc = .destroyFinally ∨ pc = .freed) :
    w.Alone := by
  cases h with
  | destroyInited huser hst =>
    rw [LooksTrue, huser] at hok
    by_cases hnone : w.worker = .none
    · exact .inl hnone
    · exact hw.alone_of_seenTo (hok hst (hw.inited hnone hst))
  | destroyClosed huser hst =>
    rw [LooksTrue, huser] at hok
    exact hw.alone_of_seenTo (hok hst)
  | _ => exact absurd hpc (by decide)

theorem quits_clientConnect (cfg : Config) (call : ConnectCall) (hw : w.Quits)
    (hnone : w.worker = .none) : (clientConnect call w).Quits := by
  have hprepared : ∀ host supply, ({ w with host := host, supply := supply } : World).Quits :=
    fun _ _ => ⟨hw.alone, hw.inited, hw.started, hw.joined⟩
  have hlinks : ∀ host supply,
      Links cfg _ (pcConnect call.cb { w with host := host, supply := supply }).1 :=
    fun _ _ => links_pcConnect call.cb _
  have hcases := clientConnect_cases call w
  generalize clientConnect call w = w' at hcases ⊢
  cases hcases with
  | failed host supply => exact hprepared host supply
  | refused host supply w' hconn =>
    have hquits := (hprepared host supply).links (hlinks host supply)
    rw [hconn] at hquits
    exact hquits
  | started host supply w' hconn =>
    have hstage := pcConnect_cases call.cb { w with host := host, supply := supply }
    rw [hconn] at hstage
    refine ⟨?_, ?_, ?_, ?_⟩
    · intro hend
      dsimp only at hend
      split at hend <;> exact absurd hend (by decide)
    · intro _ hst
      rw [show w'.state = _ from pcConnect_state hconn] at hst
      exact absurd hst (by decide)
    · -- the worker is created only when the connect was accepted
      intro _
      cases hstage with
      | launched => exact ⟨_, List.mem_cons_self, rfl⟩
    · intro hjoins
      cases hstage with
      | launched =>
        obtain ⟨e, he, hjoin⟩ := hjoins
        rcases List.mem_cons.mp he with rfl | he
        · exact absurd hjoin (by simp [Event.joins])
        · exact absurd (hnone.symm.trans (hw.joined ⟨e, he, hjoin⟩)) (by decide)

/-- **One turn.** -/
theorem Turn.quits {l : Label} {supply : List Bool} (h : Turn cfg w l w') (hw : w.Quits)
    (hok : LooksTrue w (supply, l) w') : w'.Quits := by
  cases h with
  | moves _ hm => exact hw.links hm.links
  | read t _ _ hm =>
    have hreading : { w with reading := some t }.Quits :=
      ⟨hw.alone, hw.inited, hw.started, hw.joined⟩
    have hend := (hreading.noted rfl).links hm.links
    exact ⟨hend.alone, hend.inited, hend.started, hend.joined⟩
  | tcpConnect i ok t req _ hi hdel => exact hw.links (links_onTcpConnect hi hdel)
  | handshakeReq i ok write working listed _ hi hcb =>
    exact hw.links (links_turn_handshakeReq ok working listed hi hcb)
  | handshakeAck i ok write working listed _ hi hcb =>
    exact hw.links (links_turn_handshakeAck ok working listed hi hcb)
  | reconnectTimer _ hact => exact hw.links (links_turn_reconnectTimer hact)
  | connect call _ hnone => exact quits_clientConnect cfg call hw hnone
  | loopEnd _ hworker =>
    have htail : { w with worker := .ended }.Quits := hw.tail hworker (by decide) (by decide)
    exact ⟨htail.alone, fun _ hst => absurd hst (by simp), htail.started, htail.joined⟩
  | tailEmit hworker hm =>
    exact (hw.links hm.links).tail (hm.framed.worker.trans hworker) (by decide) (by decide)
  | tailExit hworker hm _ =>
    exact (hw.links hm.links).tail (hm.framed.worker.trans hworker) (by decide) (by decide)
  | user pc _ hm hgoes =>
    have hmoved := hw.links hm.links
    refine ⟨?_, hmoved.inited, hmoved.started, hmoved.joined⟩
    intro hpc
    have halone : w.worker = .none ∨ w.worker = .joined := hgoes.alone hw hok hpc
    rw [← hm.framed.worker] at halone
    exact halone
  | join pc _ hworker _ =>
    -- `uv_thread_join` has returned: the worker is gone
    have hlive : w.worker ≠ .none := by
      rcases hworker with heq | heq <;> rw [heq] <;> decide
    refine ⟨fun _ => .inr rfl, fun _ hst => ?_, fun _ => ?_, fun _ => rfl⟩
    · obtain ⟨e, he, hreset⟩ := hw.inited hlive hst
      exact ⟨e, List.mem_cons_of_mem _ he, hreset⟩
    · obtain ⟨e, he, hconnects⟩ := hw.started hlive
      exact ⟨e, List.mem_cons_of_mem _ he, hconnects⟩
  | joinNone pc _ hworker _ =>
    exact ⟨fun _ => .inl hworker, fun hnone => absurd hworker hnone, fun hnone => absurd hworker hnone,
      hw.joined⟩
  | free huser =>
    obtain ⟨w₁, hm, heq | heq⟩ := clientFree_moves cfg w
    · rw [heq]
      exact hw.links hm.links
    · have hclear := hw.links hm.links
      rw [heq]
      refine ⟨fun _ => ?_, hclear.inited, hclear.started, hclear.joined⟩
      have halone : w.worker = .none ∨ w.worker = .joined := hw.alone (.inl huser)
      rw [← hm.framed.worker] at halone
      exact halone

end Turns

/-! ## Runs -/

theorem reach_quits {cfg : Config} {w : World} (h : (clientLts cfg).Reach LooksTrue w) :
    w.Quits := by
  apply h.invariant (P := World.Quits)
  · rintro _ ⟨reqId, files, -, rfl⟩
    exact ⟨fun _ => .inl rfl, fun hnone => absurd rfl hnone, fun hnone => absurd rfl hnone,
      fun ⟨_, he, _⟩ => absurd he List.not_mem_nil⟩
  · intro w l w' hr hw hstep hok
    have hw₀ : { w with supply := l.1 }.Quits := ⟨hw.alone, hw.inited, hw.started, hw.joined⟩
    exact (step_turn (reach_reading hr) hstep).quits hw₀ hok

/-- **The client is freed after its worker.** In every run in which the user's thread has seen to
the worker wherever `pc_client_destroy` skips the join, the worker was never started or has
been joined when the client is about to be freed, and when it is. -/
theorem freed_worker {cfg : Config} {w : World} (h : (clientLts cfg).Reach LooksTrue w)
    (hend : w.user = .destroyFinally ∨ w.user = .freed) :
    w.worker = .none ∨ w.worker = .joined :=
  (reach_quits h).alone hend

/-- A client that is disconnected, joined and destroyed. -/
def joinedRun : List (List Bool × Label) :=
  plainStart ++ [([], .disconnectSet), ([], .disconnectSend), ([], .closeAsync), ([], .loopEnd),
    ([], .workerTail), ([], .workerTail), ([], .join), ([], .destroy), ([], .destroy),
    ([], .destroy)]

/-- Its worker is gone. -/
theorem freed_joinedRun :
    ∃ w, runSteps (plainConfig true) joinedRun plainInit = some w ∧ w.user = .freed ∧
      (w.worker = .none ∨ w.worker = .joined) := by
  have hrun : ∃ w, runSteps (plainConfig true) joinedRun plainInit = some w ∧ w.user = .freed :=
    ⟨_, rfl, rfl⟩
  obtain ⟨w, hrun, hfreed⟩ := hrun
  have hok : RunMeets (plainConfig true) LooksTrue joinedRun plainInit := by
    decide +kernel
  have hreach := reach_of_runSteps joinedRun reach_plainInit hok hrun
  exact ⟨w, hrun, hfreed, freed_worker hreach (.inr hfreed)⟩

/-- A client that is stopped and destroyed. -/
def unjoinedRun : List (List Bool × Label) :=
  plainStart ++ [([], .call .stop), ([], .destroy), ([], .destroy), ([], .destroy)]

/-- Its worker is still inside the loop. -/
theorem freed_unjoinedRun :
    ∃ w, runSteps (plainConfig false) unjoinedRun plainInit = some w ∧
      Reachable (plainConfig false) w ∧ w.user = .freed ∧
      ¬ (w.worker = .none ∨ w.worker = .joined) := by
  have hrun : ∃ w, runSteps (plainConfig false) unjoinedRun plainInit = some w ∧
      w.user = .freed ∧ w.worker = .looping := ⟨_, rfl, rfl, rfl⟩
  obtain ⟨w, hrun, hfreed, hworker⟩ := hrun
  refine ⟨w, hrun, reachable_of_run hrun, hfreed, ?_⟩
  rw [hworker]
  decide

end Libpomelo
