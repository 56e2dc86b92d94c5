import Libpomelo.CallbackOwed

/-!
# What is left when the worker has ended

The loop ends when nothing is on its way any more, and nobody but the loop makes a client
`WORKING`; so from then on nothing is accepted, and nothing is written or called back but what the
user's thread still does. Freeing the client calls back what is left in the request map. With
`callbacks_owed` this says what became of everything that was ever accepted.
-/

namespace Libpomelo

/-- No request or notify is on its way, and none is accepted. -/
structure World.Still (w : World) : Prop where
  /-- the asyncs -/
  asyncs : w.asyncs = []
  /-- the writes -/
  writes : ∀ write ∈ w.writes, ∀ req, write.cb ≠ .request req ∧ write.cb ≠ .notify req
  /-- requests and notifies need a client that is `WORKING` -/
  state : w.state ≠ .working

section Still

variable {cfg : Config} {begins : Bool} {w w' : World}

theorem World.Still.mono (h : w.Still) (hasyncs : w'.asyncs = w.asyncs) (hwrites : w'.writes ⊆ w.writes)
    (hstate : w'.state = w.state ∨ w'.state ≠ .working) : w'.Still := by
  refine ⟨hasyncs.trans h.asyncs, fun write hmem => h.writes write (hwrites hmem), ?_⟩
  rcases hstate with hsame | hother
  · rw [hsame]
    exact h.state
  · exact hother

theorem World.Still.no_async {i : ℕ} {req : TcpReq} (h : w.Still) : w.asyncs[i]? ≠ some req := by
  rw [h.asyncs]
  simp

theorem World.Still.queueWrite {cb : WriteCb} {t : ℕ} {data : Option Bytes} (h : w.Still)
    (hcb : ∀ req, cb ≠ .request req ∧ cb ≠ .notify req) : (queueWrite cb t data w).Still := by
  refine ⟨h.asyncs, fun write hmem => ?_, h.state⟩
  rcases List.mem_append.mp hmem with hold | hnew
  · exact h.writes write hold
  · obtain rfl := List.mem_singleton.mp hnew
    exact hcb

theorem Move.still (h : Move cfg begins w w') (hw : w.Still) : w'.Still := by
  cases h with
  | inert w' hin _ =>
    rw [hin.eq]
    exact hw.mono rfl (List.Subset.refl _) (.inl rfl)
  | shook w' _ _ hin _ _ _ =>
    rw [hin.eq]
    exact hw.mono rfl (List.Subset.refl _) (.inl rfl)
  | accept _ _ _ _ _ hst => exact absurd hst hw.state
  | queueWrite cb t data _ hdue _ =>
    apply hw.queueWrite
    rintro req
    constructor
    · rintro rfl
      have hmem := hdue.1
      rw [hw.asyncs] at hmem
      exact absurd hmem List.not_mem_nil
    · rintro rfl
      exact hdue
  | popWrite i => exact hw.mono rfl (List.eraseIdx_sublist _ _).subset (.inl rfl)
  | notifyDone i => exact hw.mono rfl (List.eraseIdx_sublist _ _).subset (.inl rfl)
  | popAsync i req hi | asyncRequestCb i req _ hi | asyncNotifyCb i req _ hi => exact absurd hi hw.no_async
  | sendNotify i t data req hi | enlist i t data req hi => exact absurd hi hw.no_async
  | reset | closeInited | close | disconnect =>
    exact hw.mono rfl (List.Subset.refl _) (.inr (by simp [World.note, disconnectSet]))
  | _ => exact hw.mono rfl (List.Subset.refl _) (.inl rfl)

theorem enduring_still : Enduring cfg World.Still where
  move _ _ _ hw hm := hm.still hw
  taken _ hw := hw.mono rfl (List.Subset.refl _) (.inl rfl)
  calledBack _ _ _ hw := hw.mono rfl (List.Subset.refl _) (.inl rfl)

/-- Nothing gets into the map. -/
theorem Move.requests_sublist (h : Move cfg begins w w') (hw : w.Still) :
    w'.requests.Sublist w.requests := by
  have hsplit : ∀ {id : ℕ} {req : TcpReq} {before after : List (ℕ × TcpReq)},
      w.requests = before ++ (id, req) :: after → (before ++ after).Sublist w.requests := by
    intro id req before after heq
    rw [heq]
    exact (List.Sublist.refl _).append (List.sublist_cons_self _ _)
  cases h with
  | inert w' hin _ => rw [hin.eq]
  | shook w' _ _ hin _ _ _ =>
    rw [hin.eq]
    exact List.Sublist.refl _
  | popAsync i req hi | asyncRequestCb i req _ hi | asyncNotifyCb i req _ hi => exact absurd hi hw.no_async
  | sendNotify i t data req hi | enlist i t data req hi => exact absurd hi hw.no_async
  | unlink | lateCb => exact List.eraseP_sublist
  | release id req before after heq => exact hsplit heq
  | respond t raw rest req before after heq => exact hsplit heq
  | _ => exact List.Sublist.refl _

theorem Moves.requests_sublist (h : Moves cfg w w') (hw : w.Still) :
    w'.Still ∧ w'.requests.Sublist w.requests := by
  obtain ⟨hseq, -⟩ := h
  induction hseq with
  | refl => exact ⟨hw, List.Sublist.refl _⟩
  | tail _ hm ih =>
    obtain ⟨_, hm⟩ := hm
    exact ⟨hm.still ih.1, (hm.requests_sublist ih.1).trans ih.2⟩

/-- **Clearing the map empties it**, unless nothing runs any more. -/
theorem requestsClear_nil : ∀ (n : ℕ) (w : World), w.Still → w.requests.length ≤ n →
    (requestsClear (releaseRequest cfg) n w).halted = none →
      (requestsClear (releaseRequest cfg) n w).requests = []
  | 0, w, _, hlen => fun _ => List.length_eq_zero_iff.mp (Nat.le_zero.mp hlen)
  | n + 1, w, hw, hlen => by
    rw [requestsClear]
    split
    · next hfirst => exact fun _ => requestsFirst_eq_none hfirst
    · next id req hfirst =>
      obtain ⟨before, after, hsplit, hdel⟩ := requestsFirst_split hfirst
      rw [hdel, World.andThen]
      have hunlisted : ({ w with requests := before ++ after }.note (.requestCb req.serial (-1))).Still :=
        hw.mono rfl (List.Subset.refl _) (.inl rfl)
      -- the callback adds nothing to what is left
      obtain ⟨hstill, hsub⟩ := Moves.requests_sublist
        (moves_callback (.requestCb req.serial (-1)) { w with requests := before ++ after }) hunlisted
      split
      · next hhalt =>
        intro hrun
        rw [hrun] at hhalt
        exact absurd hhalt (by decide)
      · refine requestsClear_nil n _ hstill (hsub.length_le.trans ?_)
        rw [hsplit] at hlen
        simp only [World.note, List.length_append, List.length_cons] at hlen ⊢
        omega

end Still

/-! ## Turns -/

/-- The worker has not begun or has ended, and then nothing is on its way. -/
def World.Rests (w : World) : Prop := w.worker ≠ .looping → w.Still

/-- The client was freed, and by then nobody else ran. -/
def World.Cleared (w : World) : Prop :=
  w.user = .freed → w.worker = .none ∨ w.worker = .joined → w.halted = none → w.requests = []

section Turns

variable {cfg : Config} {w w' : World}

theorem still_pcConnect (cb : ConnectCb) (hw : w.Still) : (pcConnect cb w).1.Still := by
  have hcases := pcConnect_cases cb w
  generalize pcConnect cb w = r at hcases ⊢
  cases hcases with
  | invalid => exact hw
  | refused | crashed | notConnected | launched =>
    exact hw.mono rfl (List.Subset.refl _) (.inr (by simp [World.note, World.halt, setConnReq]))

theorem rests_clientConnect (call : ConnectCall) (hw : w.Still) : (clientConnect call w).Rests := by
  have hprepared : ∀ host supply, ({ w with host := host, supply := supply } : World).Still :=
    fun _ _ => hw.mono rfl (List.Subset.refl _) (.inl rfl)
  have hcases := clientConnect_cases call w
  generalize clientConnect call w = w' at hcases ⊢
  cases hcases with
  | failed host supply => exact fun _ => hprepared host supply
  | refused host supply w' hconn =>
    have hstill := still_pcConnect call.cb (hprepared host supply)
    rw [hconn] at hstill
    exact fun _ => hstill
  | started => exact fun hworker => absurd rfl hworker

/-- A turn of the loop is none of a client at rest. -/
theorem World.Rests.of_looping (hworker : w.worker = .looping) : w.Rests :=
  fun hno => absurd hworker hno

theorem Moves.rests (h : Moves cfg w w') (hw : w.Rests) : w'.Rests := by
  intro hworker
  rw [h.framed.worker] at hworker
  exact enduring_still.moves h (hw hworker)

/-- **One turn.** -/
theorem Turn.rests {l : Label} (h : Turn cfg w l w') (hw : w.Rests) : w'.Rests := by
  cases h with
  | moves _ hm => exact hm.rests hw
  | read t _ _ hm =>
    have hstart : ({ w with reading := some t }.note (.read t)).Rests :=
      fun hworker => (hw hworker).mono rfl (List.Subset.refl _) (.inl rfl)
    exact fun hworker => (hm.rests hstart hworker).mono rfl (List.Subset.refl _) (.inl rfl)
  | tcpConnect i ok t req hworker hi hok =>
    have hlinks : Links cfg w _ := links_onTcpConnect hi hok
    exact .of_looping (hlinks.threads.1.trans hworker)
  | handshakeReq i ok write working listed hworker hi hcb =>
    exact .of_looping ((links_turn_handshakeReq ok working listed hi hcb).threads.1.trans hworker)
  | handshakeAck i ok write working listed hworker hi hcb =>
    exact .of_looping ((links_turn_handshakeAck ok working listed hi hcb).threads.1.trans hworker)
  | reconnectTimer hworker hact =>
    exact .of_looping ((links_turn_reconnectTimer hact).threads.1.trans hworker)
  | connect call _ hnone =>
    apply rests_clientConnect
    apply hw
    rw [hnone]
    decide
  | loopEnd hidle _ =>
    simp only [loopIdle, Bool.and_eq_true, List.isEmpty_iff] at hidle
    obtain ⟨⟨⟨⟨⟨⟨⟨⟨-, -⟩, hwrites⟩, hasyncs⟩, -⟩, -⟩, -⟩, -⟩, -⟩ := hidle
    intro _
    have hstill : w.writes = [] → ({ w with worker := .ended, state := .closed } : World).Still :=
      fun hnil => ⟨hasyncs, fun write hmem => absurd (hnil ▸ hmem) List.not_mem_nil, by simp⟩
    exact hstill hwrites
  | tailEmit hworker hm | tailExit hworker hm _ =>
    intro _
    have hstill : w.Still := hw (by rw [hworker]; decide)
    exact (enduring_still.moves hm hstill).mono rfl (List.Subset.refl _) (.inl rfl)
  | user pc _ hm _ => exact fun hworker => (hm.rests hw hworker).mono rfl (List.Subset.refl _) (.inl rfl)
  | join pc _ hworker _ =>
    intro _
    have hstill : w.Still := hw (by rcases hworker with heq | heq <;> rw [heq] <;> decide)
    exact hstill.mono rfl (List.Subset.refl _) (.inl rfl)
  | joinNone pc _ hworker _ =>
    intro _
    have hstill : w.Still := hw (by rw [hworker]; decide)
    exact hstill.mono rfl (List.Subset.refl _) (.inl rfl)
  | free _ =>
    obtain ⟨w₁, hm, heq | heq⟩ := clientFree_moves cfg w
    · rw [heq]
      exact hm.rests hw
    · rw [heq]
      exact fun hworker => (hm.rests hw hworker).mono rfl (List.Subset.refl _) (.inl rfl)

theorem reach_rests {ok : World → List Bool × Label → World → Prop}
    (h : (clientLts cfg).Reach ok w) : w.Rests := by
  refine h.invariant (P := World.Rests) ?_ ?_
  · rintro _ ⟨reqId, files, -, rfl⟩ _
    exact ⟨rfl, fun write hmem => absurd hmem List.not_mem_nil, by simp [World.init]⟩
  · intro w l w' hr hw hstep _
    refine (step_turn (reach_reading hr) hstep).rests fun hworker => ?_
    exact (hw hworker).mono rfl (List.Subset.refl _) (.inl rfl)

/-- A worker that is neither joined nor missing. -/
theorem World.Cleared.of_worker {worker : Worker} (hworker : w.worker = worker)
    (hnone : worker ≠ .none) (hjoined : worker ≠ .joined) : w.Cleared := by
  intro _ hpast
  rw [hworker] at hpast
  exact absurd hpast (by simp [hnone, hjoined])

/-- A client that is not freed. -/
theorem World.Cleared.of_user {user : UserPc} (huser : w.user = user) (hne : user ≠ .freed) :
    w.Cleared :=
  fun hfreed => absurd (huser.symm.trans hfreed) hne

/-- At rest, the map does not grow. -/
theorem Moves.cleared (h : Moves cfg w w') (hw : w.Cleared) (hrests : w.Rests) : w'.Cleared := by
  intro hfreed hpast hrun
  have hpast₀ : w.worker = .none ∨ w.worker = .joined := by
    rw [← h.framed.worker]
    exact hpast
  have hfreed₀ : w.user = .freed := by
    rcases h.framed.user with hsame | ⟨-, hwoken⟩
    · exact hsame.symm.trans hfreed
    · rw [hwoken] at hfreed
      exact absurd hfreed (by decide)
  have hstill : w.Still := hrests (by rcases hpast₀ with heq | heq <;> rw [heq] <;> decide)
  have hsub := (h.requests_sublist hstill).2
  rw [hw hfreed₀ hpast₀ (h.halted hrun)] at hsub
  exact List.sublist_nil.mp hsub

/-- No turn but the last one of `pc_client_destroy` frees the client. -/
theorem UserGoes.not_freed {l : Label} {pc : UserPc} (h : UserGoes w l pc) : pc ≠ .freed := by
  cases h <;> decide

theorem cleared_clientFree (hrests : w.Rests) : (clientFree cfg w).Cleared := by
  have hm : Moves cfg w (requestsClear (releaseRequest cfg) w.requests.length w) :=
    moves_requestsClear _ w
  have hworker : (clientFree cfg w).worker = w.worker := by
    rw [clientFree, World.andThen]
    split
    · exact hm.framed.worker
    · exact hm.framed.worker
  intro _ hpast hrun
  rw [hworker] at hpast
  have hstill : w.Still := hrests (by rcases hpast with heq | heq <;> rw [heq] <;> decide)
  have hclear := @requestsClear_nil cfg w.requests.length w hstill le_rfl
  revert hrun
  rw [clientFree, World.andThen]
  split
  · exact hclear
  · exact hclear

theorem pcConnect_user (cb : ConnectCb) (w : World) : (pcConnect cb w).1.user = w.user := by
  have hcases := pcConnect_cases cb w
  generalize pcConnect cb w = r at hcases ⊢
  cases hcases <;> rfl

theorem cleared_clientConnect (call : ConnectCall) (huser : w.user = .idle) :
    (clientConnect call w).Cleared := by
  have hcases := clientConnect_cases call w
  generalize clientConnect call w = w' at hcases ⊢
  cases hcases with
  | failed host supply => exact .of_user huser (by decide)
  | refused host supply w' hconn =>
    have hsame := pcConnect_user call.cb { w with host := host, supply := supply }
    rw [hconn] at hsame
    exact .of_user (hsame.trans huser) (by decide)
  | started => exact .of_worker (show _ = Worker.looping from rfl) (by decide) (by decide)

theorem Turn.cleared {l : Label} (h : Turn cfg w l w') (hw : w.Cleared) (hrests : w.Rests) :
    w'.Cleared := by
  cases h with
  | moves _ hm => exact hm.cleared hw hrests
  | read t _ hwork hm =>
    have hstart : ({ w with reading := some t }.note (.read t)).Cleared := hw
    have hstill : ({ w with reading := some t }.note (.read t)).Rests :=
      fun hworker => (hrests hworker).mono rfl (List.Subset.refl _) (.inl rfl)
    exact hm.cleared hstart hstill
  | tcpConnect i ok t req hworker hi hok =>
    have hlinks : Links cfg w _ := links_onTcpConnect hi hok
    exact .of_worker (hlinks.threads.1.trans hworker) (by decide) (by decide)
  | handshakeReq i ok write working listed hworker hi hcb =>
    exact .of_worker ((links_turn_handshakeReq ok working listed hi hcb).threads.1.trans hworker)
      (by decide) (by decide)
  | handshakeAck i ok write working listed hworker hi hcb =>
    exact .of_worker ((links_turn_handshakeAck ok working listed hi hcb).threads.1.trans hworker)
      (by decide) (by decide)
  | reconnectTimer hworker hact =>
    exact .of_worker ((links_turn_reconnectTimer hact).threads.1.trans hworker) (by decide) (by decide)
  | connect call huser _ => exact cleared_clientConnect call huser
  | loopEnd => exact .of_worker (show _ = Worker.ended from rfl) (by decide) (by decide)
  | tailEmit => exact .of_worker (show _ = Worker.emitted from rfl) (by decide) (by decide)
  | tailExit => exact .of_worker (show _ = Worker.exited from rfl) (by decide) (by decide)
  | user pc _ hm hgoes => exact .of_user rfl hgoes.not_freed
  | join pc _ _ hpc | joinNone pc _ _ hpc =>
    refine .of_user (show _ = pc from rfl) ?_
    rcases hpc with ⟨-, rfl⟩ | ⟨-, rfl⟩ <;> decide
  | free _ => exact cleared_clientFree hrests

theorem reach_cleared {ok : World → List Bool × Label → World → Prop}
    (h : (clientLts cfg).Reach ok w) : w.Cleared := by
  refine h.invariant (P := World.Cleared) ?_ ?_
  · rintro _ ⟨reqId, files, -, rfl⟩
    exact .of_user (show _ = UserPc.idle from rfl) (by decide)
  · intro w l w' hr hw hstep _
    refine (step_turn (reach_reading hr) hstep).cleared hw fun hworker => ?_
    exact (reach_rests hr hworker).mono rfl (List.Subset.refl _) (.inl rfl)

/-- At rest, no notify is pending. -/
theorem World.Still.notifiesPending (h : w.Still) (serial : ℕ) : w.notifiesPending serial = 0 := by
  have hwrites : w.writes.countP (Write.notifies serial) = 0 := by
    rw [List.countP_eq_zero]
    intro write hmem
    rw [Write.notifies]
    split
    · next req hcb => exact absurd hcb (h.writes write hmem req).2
    · exact Bool.false_ne_true
  rw [World.notifiesPending, h.asyncs, hwrites]
  rfl

/-- **Everything was called back** by a client that was destroyed after its worker was joined: each
notify that was accepted once, and each request, unless its write succeeded while it was not in the
map. -/
theorem settled_of_freed (h : Reachable cfg w) (hrun : w.halted = none) (hfreed : w.user = .freed)
    (hjoined : w.worker = .joined) (req : TcpReq) (haccepted : .accepted req ∈ w.trace) :
    (req.type = .notify → notifyCalls w.trace req.serial = 1) ∧
    (req.type = .request → IdsDistinct w.trace →
      0 < requestCalls w.trace req.serial ∨
        ∃ write r, write.cb = .request r ∧ r.serial = req.serial ∧
          .writeDone write 0 true false ∈ w.trace) := by
  have hstill : w.Still := reach_rests h (by rw [hjoined]; decide)
  have hnil : w.requests = [] := reach_cleared h hfreed (.inr hjoined) hrun
  obtain ⟨hnotifies, hrequests⟩ := And.intro (kept_accounts.reach h hrun req.serial)
    ((kept_remembers.reach h).2.2 hrun)
  constructor
  · intro htype
    have honce := notifiesAccepted_le (kept_serialsOnce.reach h) req.serial
    have hpos : 0 < notifiesAccepted w.trace req.serial := by
      refine List.countP_pos_iff.mpr ⟨_, haccepted, ?_⟩
      simp [Event.acceptsNotify, TcpReq.notifies, htype]
    rw [hstill.notifiesPending, Nat.zero_add] at hnotifies
    omega
  · intro htype hids
    cases hrequests hids req haccepted htype with
    | called status hmem =>
      exact .inl (List.countP_pos_iff.mpr ⟨_, hmem, decide_eq_true rfl⟩)
    | async r hmem =>
      rw [hstill.asyncs] at hmem
      exact absurd hmem List.not_mem_nil
    | listed id r hmem =>
      rw [hnil] at hmem
      exact absurd hmem List.not_mem_nil
    | writing write r hmem hcb => exact absurd hcb (hstill.writes write hmem r).1
    | missed write r hcb hserial hdone => exact .inr ⟨write, r, hcb, hserial, hdone⟩

/-- The client is stopped while a request waits, joined and destroyed. -/
def destroyedRun : List (List Bool × Label) :=
  writtenRun ++ [([], .call .stop), ([], .loopEnd), ([], .workerTail), ([], .workerTail), ([], .join),
    ([], .destroy), ([], .destroy), ([], .destroy)]

/-- The notify of the run. -/
def notifyExample : TcpReq := ⟨0, .notify, 0, 0, [97], some (.obj [])⟩

/-- Its request. -/
def requestExample : TcpReq := ⟨1, .request, 1, 0, [97], some (.obj [])⟩

/-- The notify was called back by its write, the request by freeing the client. -/
theorem settled_of_freed_destroyedRun :
    ∃ w, runSteps (plainConfig false) destroyedRun plainInit = some w ∧ w.user = .freed ∧
      notifyCalls w.trace notifyExample.serial = 1 ∧
      (0 < requestCalls w.trace requestExample.serial ∨
        ∃ write r, write.cb = .request r ∧ r.serial = requestExample.serial ∧
          .writeDone write 0 true false ∈ w.trace) := by
  have hend : ∃ w, runSteps (plainConfig false) destroyedRun plainInit = some w ∧
      w.user = .freed ∧ w.worker = .joined ∧ w.halted = none ∧
      w.trace[14]? = some (.accepted notifyExample) ∧
      w.trace[13]? = some (.accepted requestExample) ∧ IdsDistinct w.trace :=
    ⟨_, rfl, rfl, rfl, rfl, rfl, rfl, by decide +kernel⟩
  obtain ⟨w, hwrun, hfreed, hjoined, hrun, hnotify, hrequest, hids⟩ := hend
  have hsettled := settled_of_freed (reachable_of_run hwrun) hrun hfreed hjoined
  exact ⟨w, hwrun, hfreed, (hsettled _ (List.mem_of_getElem? hnotify)).1 rfl,
    (hsettled _ (List.mem_of_getElem? hrequest)).2 rfl hids⟩

end Turns

end Libpomelo
