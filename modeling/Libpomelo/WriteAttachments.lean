import Libpomelo.Heartbeats
import Libpomelo.Lifecycle

/-!
# What the completion of a write reads back

`pc__binary_write` attaches two pointers to a write: the current transport and the buffer. The
completion callbacks of the handshake request and of its ack read the first as a transport;
the heartbeat's reads it as a client, and uses that when the write has failed.

A completion should find what was stored: when the transport has since been closed it leaves
the client alone, and otherwise a failure stops the client, whose connection it is
(`ReadsBack`).
-/

namespace Libpomelo

/-- A write of `pc__binary_write`. -/
def WriteCb.Own : WriteCb → Prop
  | .handshakeReq | .handshakeAck | .heartbeatReq => True
  | .request _ | .notify _ => False

/-- The client as the completion callback of a write finds it. -/
def World.completes (w : World) (supply : List Bool) (i : ℕ) (write : Write) (status : ℤ) : World :=
  { w with supply := supply, writes := w.writes.eraseIdx i }.note
    (.writeDone write status (w.working write.transport) false)

/-- **Read back.** The client that the callback of a write finds, and leaves. -/
structure ReadsBack (write : Write) (status : ℤ) (w w' : World) : Prop where
  /-- when the transport has been closed, the client is left alone -/
  alone : w.working write.transport = false → w' = w
  /-- a failure stops the client, and the transport is the one it has -/
  stops : w.working write.transport = true → status = -1 →
    w.transport = some write.transport ∧
      ∃ newer, w'.trace = newer ++ w.trace ∧ .stop w.state w.reconnecting ∈ newer

section Completion

variable {cfg : Config} {w w' : World} {supply : List Bool} {i : ℕ} {write : Write} {ok : Bool}

/-- What `pc__binary_write` stores. -/
theorem binaryWrite_stores (cb : WriteCb) (data : Option Bytes) (w : World)
    (h : (binaryWrite cb data w).2 = true) :
    ∃ t, w.transport = some t ∧ (binaryWrite cb data w).1.writes = w.writes ++ [⟨cb, t, data⟩] := by
  unfold binaryWrite at h ⊢
  by_cases hopen : w.state ≠ .connected ∧ w.state ≠ .working
  · rw [if_pos hopen] at h
    exact absurd h (by simp)
  rw [if_neg hopen] at h ⊢
  by_cases hreq : ¬ w.outcome
  · rw [if_pos hreq] at h
    exact absurd h (by simp)
  rw [if_neg hreq] at h ⊢
  rcases data with _ | data
  · exact absurd h (by simp)
  rcases ht : w.transport with _ | t
  · rw [ht] at h
    exact absurd h (by simp)
  rw [ht] at h
  dsimp only at h ⊢
  by_cases hcontext : ¬ w.called.outcome
  · rw [if_pos hcontext] at h
    exact absurd h (by simp)
  rw [if_neg hcontext] at h ⊢
  by_cases huv : ¬ w.called.called.outcome
  · rw [if_pos huv] at h
    exact absurd h (by simp)
  rw [if_neg huv]
  exact ⟨t, rfl, rfl⟩

theorem step_writeDone (hwrite : w.writes[i]? = some write)
    (h : step cfg supply (.writeDone i ok) w = some w') :
    w' = writeCb cfg write (uvStatus ok)
      { w with supply := supply, writes := w.writes.eraseIdx i } := by
  rw [step] at h
  split at h
  · exact absurd h (by simp)
  · simp only [userStep, loopStep, hwrite] at h
    split at h
    · split at h
      · exact (Option.some.inj h).symm
      · exact absurd h (by simp)
    · exact absurd h (by simp)

/-- An own write completes by its callback, from the state the model records. -/
theorem writeCb_of_own {status : ℤ} (hown : write.cb.Own) :
    writeCb cfg write status { w with supply := supply, writes := w.writes.eraseIdx i } =
      match write.cb with
      | .handshakeReq => handshakeReqCb cfg write.transport status (w.completes supply i write status)
      | .handshakeAck => handshakeAckCb cfg write.transport status (w.completes supply i write status)
      | _ => heartbeatReqCb cfg status (w.completes supply i write status) := by
  rcases write with ⟨cb, t, data⟩
  cases cb with
  | handshakeReq | handshakeAck | heartbeatReq => rfl
  | request | notify => exact absurd hown id

/-- A handler that reports a failure stops the client, and `finishConnect` behind it takes
nothing back. -/
theorem failWith_stops (f : Failure) (status : ℤ) (w : World) : ∃ newer,
    (finishConnect cfg status (failWith cfg f w)).trace = newer ++ w.trace ∧
      .stop w.state w.reconnecting ∈ newer := by
  obtain ⟨newer, hnewer, -⟩ : ∃ newer, (failWith cfg f w).trace =
      newer ++ .stop w.state w.reconnecting :: .failure f :: w.trace ∧ ∀ e ∈ newer, _ :=
    clientStop_trace (w.note (.failure f))
  obtain ⟨more, hmore⟩ : (failWith cfg f w).trace <:+
      (finishConnect cfg status (failWith cfg f w)).trace :=
    (links_finishConnect status (failWith cfg f w)).trace_suffix
  refine ⟨more ++ (newer ++ [.stop w.state w.reconnecting, .failure f]), ?_, by simp⟩
  rw [← hmore, hnewer]
  simp

/-- **Which completions read back what was stored.** Every write of `pc__binary_write` carries
the transport current at that time and its buffer. In every reachable state its completion
leaves a client alone whose transport has been closed, and stops a client whose transport
failed, exactly when it is not the failure of a heartbeat. -/
theorem readsBack_iff (hreal : cfg.heartbeatStops = false) :
    (∀ cb data v, (binaryWrite cb data v).2 = true →
      ∃ t, v.transport = some t ∧ (binaryWrite cb data v).1.writes = v.writes ++ [⟨cb, t, data⟩]) ∧
    ∀ w w' supply i ok write, Reachable cfg w → w.writes[i]? = some write → write.cb.Own →
      step cfg supply (.writeDone i ok) w = some w' →
      (ReadsBack write (uvStatus ok) (w.completes supply i write (uvStatus ok)) w' ↔
        write.cb ≠ .heartbeatReq ∨ ok = true) := by
  refine ⟨binaryWrite_stores, ?_⟩
  intro w w' supply i ok write h hwrite hown hstep
  have hcurrent : ∀ t, (w.completes supply i write (uvStatus ok)).working t = true →
      (w.completes supply i write (uvStatus ok)).transport = some t :=
    fun t hwork => (reach_lifecycle h).current t hwork
  have hhalted : w.halted = none := step_halted hstep
  have hrun : (w.completes supply i write (uvStatus ok)).halted = none := hhalted
  rw [step_writeDone hwrite hstep, writeCb_of_own hown]
  generalize w.completes supply i write (uvStatus ok) = v at hcurrent hrun ⊢
  rcases hcb : write.cb with _ | _ | _ | req | req
  · -- the callbacks of the handshake go by the transport
    refine iff_of_true ⟨fun hdead => handshakeReqCb_dead hdead, fun hwork hfailed => ?_⟩
      (.inl (by simp))
    refine ⟨hcurrent _ hwork, ?_⟩
    dsimp only
    rw [handshakeReqCb, if_neg (by simp [hwork]), if_pos hfailed]
    exact failWith_stops ..
  · refine iff_of_true ⟨fun hdead => handshakeAckCb_dead hdead, fun hwork hfailed => ?_⟩
      (.inl (by simp))
    refine ⟨hcurrent _ hwork, ?_⟩
    dsimp only
    rw [handshakeAckCb, if_neg (by simp [hwork])]
    dsimp only
    rw [if_pos hfailed]
    exact failWith_stops ..
  · cases ok with
    | true =>
      exact iff_of_true ⟨fun _ => rfl, fun _ hfailed => absurd hfailed (by decide)⟩ (.inr rfl)
    | false =>
      have hcrash : heartbeatReqCb cfg (uvStatus false) v = v.halt .crash := by
        have hfailed : uvStatus false = -1 := rfl
        rw [heartbeatReqCb, if_pos hfailed, if_neg (by simp [hreal])]
      refine iff_of_false (fun hread => ?_) (by simp)
      dsimp only at hread
      rw [hcrash] at hread
      -- the cast crashes, whether the transport is still open or not
      by_cases hwork : v.working write.transport = true
      · obtain ⟨-, newer, htrace, hmem⟩ := hread.stops hwork rfl
        obtain rfl : newer = [] := List.append_left_eq_self.mp htrace.symm
        exact absurd hmem List.not_mem_nil
      · have hsame := congrArg World.halted (hread.alone (by simpa using hwork))
        rw [hrun] at hsame
        exact absurd hsame (by simp [World.halt])
  -- requests and notifies do not go through `pc__binary_write`
  all_goals
    rw [hcb] at hown
    exact absurd hown id

end Completion

/-- The failure of a handshake request is read back. -/
theorem readsBack_iff_droppedRequest :
    ∃ w w' write, runSteps (plainConfig false) [([], .connect .connect2), ([], .tcpConnect 0 true)]
        plainInit = some w ∧ w.writes[0]? = some write ∧
      step (plainConfig false) [] (.writeDone 0 false) w = some w' ∧
      (ReadsBack write (uvStatus false) (w.completes [] 0 write (uvStatus false)) w' ↔
        write.cb ≠ .heartbeatReq ∨ false = true) := by
  have hrun : ∃ w w' write,
      runSteps (plainConfig false) [([], .connect .connect2), ([], .tcpConnect 0 true)]
        plainInit = some w ∧ w.writes[0]? = some write ∧
      step (plainConfig false) [] (.writeDone 0 false) w = some w' ∧ write.cb = .handshakeReq :=
    ⟨_, _, _, rfl, rfl, rfl, rfl⟩
  obtain ⟨w, w', write, hrun, hwrite, hstep, hcb⟩ := hrun
  have hown : write.cb.Own := by
    rw [hcb]
    trivial
  exact ⟨w, w', write, hrun, hwrite, hstep, (readsBack_iff rfl).2 w w' [] 0 false write
    (reachable_of_run hrun) hwrite hown hstep⟩

/-- A client that is stopped while its heartbeat is being written. -/
def beatingRun : List (List Bool × Label) :=
  beatStart ++ [([], .heartbeatTimer), ([], .call .stop)]

/-- **The heartbeat of a closed transport** is cancelled, and its callback takes the transport
for a client. -/
theorem not_readsBack_beatingRun :
    ∃ w w' write, runSteps (beatConfig false) beatingRun plainInit = some w ∧
      Reachable (beatConfig false) w ∧ w.writes[0]? = some write ∧ write.cb = .heartbeatReq ∧
      w.working write.transport = false ∧
      step (beatConfig false) [] (.writeDone 0 false) w = some w' ∧ w'.halted = some .crash ∧
      ¬ ReadsBack write (uvStatus false) (w.completes [] 0 write (uvStatus false)) w' := by
  have hrun : ∃ w w' write, runSteps (beatConfig false) beatingRun plainInit = some w ∧
      w.writes[0]? = some write ∧ write.cb = .heartbeatReq ∧ w.working write.transport = false ∧
      step (beatConfig false) [] (.writeDone 0 false) w = some w' ∧ w'.halted = some .crash ∧
      (w.completes [] 0 write (uvStatus false)).halted = none :=
    ⟨_, _, _, rfl, rfl, rfl, rfl, rfl, rfl, rfl⟩
  obtain ⟨w, w', write, hrun, hwrite, hcb, hdead, hstep, hcrash, hruns⟩ := hrun
  refine ⟨w, w', write, hrun, reachable_of_run hrun, hwrite, hcb, hdead, hstep, hcrash, ?_⟩
  intro hread
  rw [← hread.alone hdead, hcrash] at hruns
  exact absurd hruns (by simp)

end Libpomelo
