import Libpomelo.Lifecycle

/-!
# A failed send

`pc__request` and `pc__notify` share their stages and the error path: encode the message,
encode the package, allocate the write request and its context, `uv_write`. A stage that
fails should leave nothing behind but one callback with `-1`.

The result of the package encoder is not looked at. The length of the message is tested
once more in its place, so a package that could not be allocated is handed to `uv_write`,
and a message that is too long for a package leads to an uninitialised pointer, unless one
of the stages behind it fails first.
-/

namespace Libpomelo

/-! ## The stages -/

/-- The callback of a request or notify that failed. -/
def TcpReq.failed (req : TcpReq) : Event :=
  match req.type with
  | .request => .requestCb req.serial (-1)
  | .notify => .notifyCb req.serial (-1)

/-- The completion callback of its write. -/
def TcpReq.writeCb (req : TcpReq) : WriteCb :=
  match req.type with
  | .request => .request req
  | .notify => .notify req

/-- What is left to do when the write was accepted: a request goes to `pc_map_set`. -/
def TcpReq.file (cfg : Config) (req : TcpReq) (w : World) : World :=
  match req.type with
  | .request => requestsSet cfg req w
  | .notify => w

/-- The outcomes that the package encoder leaves. -/
def afterPkgEncode (msg : Bytes) (supply : List Bool) : List Bool :=
  if pkgMaxBodyBytes ≤ msg.length then supply else (malloc supply).2

/-- The write request and its context are allocated. -/
def writeAllocated (supply : List Bool) : Bool := (malloc supply).1 && (malloc (malloc supply).2).1

/-- `uv_write`, which comes next, accepts the write. -/
def writeAccepted (supply : List Bool) : Bool := (malloc (malloc (malloc supply).2).2).1

/-- How far a send gets whose message was encoded. -/
def stageAfterMsg (t : ℕ) (msg : Bytes) (supply : List Bool) : SendStage :=
  let left := afterPkgEncode msg supply
  if ¬ writeAllocated left then .failed
  else if pkgMaxBodyBytes ≤ msg.length then .crashed
  else if writeAccepted left then .queued t (pkgEncode supply pkgData msg) else .failed

section Stages

variable {cfg : Config} {req : TcpReq} {tables : Tables} {supply supply₁ : List Bool}

theorem sendStages_of_failed {transport : Option ℕ}
    (h : defaultMsgEncodeCb cfg.dumps tables supply req.id req.route req.msg = .error .failed) :
    sendStages cfg req tables transport supply = (.failed, supply) := by
  rw [sendStages, h]

theorem sendStages_of_encoded {t : ℕ} {buf : MsgBuf}
    (h : defaultMsgEncodeCb cfg.dumps tables supply req.id req.route req.msg = .ok (buf, supply₁)) :
    ∃ supply₂, sendStages cfg req tables (some t) supply =
      (stageAfterMsg t buf.base supply₁, supply₂) := by
  rw [sendStages, h, stageAfterMsg, afterPkgEncode]
  dsimp only
  generalize (if pkgMaxBodyBytes ≤ buf.base.length then supply₁ else (malloc supply₁).2) = left
  rw [writeAllocated, writeAccepted]
  cases hreq : (malloc left).1 with
  | false => exact ⟨_, rfl⟩
  | true =>
    cases hcontext : (malloc (malloc left).2).1 with
    | false => exact ⟨_, rfl⟩
    | true =>
      by_cases hlong : pkgMaxBodyBytes ≤ buf.base.length
      · simp only [not_true_eq_false, if_false, if_pos hlong, Bool.and_self]
        exact ⟨_, rfl⟩
      · simp only [not_true_eq_false, if_false, if_neg hlong, Bool.and_self]
        cases hwrite : (malloc (malloc (malloc left).2).2).1 with
        | false => exact ⟨_, rfl⟩
        | true => exact ⟨_, rfl⟩

end Stages

/-- What the end of the stages comes to. -/
def afterStages (cfg : Config) (req : TcpReq) (stage : SendStage) (w : World) : World :=
  match stage with
  | .failed => callback cfg req.failed w
  | .crashed => w.halt .crash
  | .queued t pkg => req.file cfg (queueWrite req.writeCb t pkg w)

section Handler

variable {cfg : Config} {req : TcpReq} {w : World}

/-- **The handler.** On a working transport the async of a request and that of a notify do
the same. -/
theorem asyncWriteCb_of_working {stage : SendStage} {supply : List Bool} (hrun : w.halted = none)
    (hwork : w.working req.transport = true)
    (hstage : sendStages cfg req w.tables w.transport w.supply = (stage, supply)) :
    asyncWriteCb cfg req w =
      afterStages cfg req stage { w.note (.asyncFired req true) with supply := supply } := by
  have hwork' : (w.note (.asyncFired req true)).working req.transport = true := hwork
  have hstage' : sendStages cfg req (w.note (.asyncFired req true)).tables
      (w.note (.asyncFired req true)).transport (w.note (.asyncFired req true)).supply =
      (stage, supply) := hstage
  have hnot : ¬ ¬ (w.note (.asyncFired req true)).working req.transport = true := not_not.mpr hwork'
  rw [asyncWriteCb, hwork]
  cases htype : req.type with
  | request =>
    simp only [request, if_neg hnot, sendReq, hstage']
    cases stage with
    | failed => simp only [afterStages, TcpReq.failed, htype]
    | crashed => rfl
    | queued t pkg =>
      simp only [afterStages, TcpReq.file, TcpReq.writeCb, htype]
      exact World.andThen_of_none hrun
  | notify =>
    simp only [notify, if_neg hnot, sendReq, hstage']
    cases stage with
    | failed => simp only [afterStages, TcpReq.failed, htype]
    | crashed => rfl
    | queued t pkg => simp only [afterStages, TcpReq.file, TcpReq.writeCb, htype]

theorem trace_callback (e : Event) (w : World) : e :: w.trace <:+ (callback cfg e w).trace :=
  (moves_callback e w).trace_suffix

theorem trace_requestsSet (req : TcpReq) (w : World) :
    w.trace <:+ (requestsSet cfg req w).trace := by
  rw [requestsSet]
  split
  · exact List.suffix_rfl
  split
  · exact List.suffix_rfl
  dsimp only
  split
  · exact List.suffix_rfl
  · next old hold =>
    split
    · exact List.suffix_rfl
    · apply (List.suffix_cons (.requestCb old.serial (-1)) w.trace).trans
      exact trace_callback _ { requestsDel req.id w.called.called with
        requests := (requestsDel req.id w.called.called).requests ++ [(req.id, req)] }

/-- The first event that the end of the stages leaves. -/
theorem trace_afterStages_failed : req.failed :: w.trace <:+ (afterStages cfg req .failed w).trace :=
  trace_callback _ _

theorem trace_afterStages_queued (t : ℕ) (pkg : Option Bytes) :
    .wrote ⟨req.writeCb, t, pkg⟩ :: w.trace <:+ (afterStages cfg req (.queued t pkg) w).trace := by
  rw [afterStages, TcpReq.file]
  split
  · exact trace_requestsSet req (queueWrite req.writeCb t pkg w)
  · exact List.suffix_rfl

theorem TcpReq.failed_ne_wrote (req : TcpReq) (write : Write) : req.failed ≠ .wrote write := by
  rw [TcpReq.failed]
  split <;> simp

/-- Two histories that end alike have the same event at the same place. -/
theorem cons_eq_of_suffix {e e' : Event} {older trace : List Event} (h : e :: older <:+ trace)
    (h' : e' :: older <:+ trace) : e = e' := by
  have hsame : e :: older = e' :: older :=
    (List.suffix_of_suffix_length_le h h' (by simp)).eq_of_length (by simp)
  exact (List.cons.inj hsame).1

/-- A failed send is not one that was queued. -/
theorem afterStages_failed_ne_queued (supply supply' : List Bool) (t : ℕ) (pkg : Option Bytes) :
    afterStages cfg req .failed { w with supply := supply } ≠
      afterStages cfg req (.queued t pkg) { w with supply := supply' } := by
  intro heq
  have hfailed : req.failed :: w.trace <:+
      (afterStages cfg req .failed { w with supply := supply }).trace :=
    trace_afterStages_failed (w := { w with supply := supply })
  have hqueued : .wrote ⟨req.writeCb, t, pkg⟩ :: w.trace <:+
      (afterStages cfg req (.queued t pkg) { w with supply := supply' }).trace :=
    trace_afterStages_queued (w := { w with supply := supply' }) t pkg
  rw [← heq] at hqueued
  exact req.failed_ne_wrote _ (cons_eq_of_suffix hfailed hqueued)

/-- Nor one in which the program crashed. -/
theorem afterStages_failed_ne_crashed (supply supply' : List Bool) :
    afterStages cfg req .failed { w with supply := supply } ≠
      afterStages cfg req .crashed { w with supply := supply' } := by
  intro heq
  have hfailed : req.failed :: w.trace <:+
      (afterStages cfg req .failed { w with supply := supply }).trace :=
    trace_afterStages_failed (w := { w with supply := supply })
  rw [heq] at hfailed
  have hlength : w.trace.length + 1 ≤ w.trace.length := hfailed.length_le
  exact absurd hlength (by simp)

end Handler

/-! ## The contract -/

/-- The transport of the request works, so that its stages run, and this is what the message
encoder returns. -/
def Encodes (cfg : Config) (req : TcpReq) (w : World)
    (result : Except CodingStop (MsgBuf × List Bool)) : Prop :=
  w.working req.transport = true ∧
    defaultMsgEncodeCb cfg.dumps w.tables w.supply req.id req.route req.msg = result

/-- **A stage fails.** -/
def StageFails (cfg : Config) (req : TcpReq) (w : World) : Prop :=
  Encodes cfg req w (.error .failed) ∨
    ∃ buf supply, Encodes cfg req w (.ok (buf, supply)) ∧
      (pkgEncode supply pkgData buf.base = none ∨
        writeAllocated (afterPkgEncode buf.base supply) = false ∨
        writeAccepted (afterPkgEncode buf.base supply) = false)

/-- **No stage fails**, and this is the package. -/
def StagesPass (cfg : Config) (req : TcpReq) (w : World) (pkg : Bytes) : Prop :=
  ∃ buf supply, Encodes cfg req w (.ok (buf, supply)) ∧ pkgEncode supply pkgData buf.base = some pkg ∧
    writeAllocated (afterPkgEncode buf.base supply) = true ∧
    writeAccepted (afterPkgEncode buf.base supply) = true

/-- **The contract** for a handler that turns `w` into `w'`. Where a stage fails, there is
one callback with `-1`, and until then only outcomes were used up: nothing was written and
the requests are as before. Where none does, the package was queued, these bytes and no
others, on the current transport, and what remains is `pc_map_set`. -/
structure SendContract (cfg : Config) (req : TcpReq) (w w' : World) : Prop where
  /-- a failure is reported -/
  reports : StageFails cfg req w → ∃ supply,
    w' = callback cfg req.failed { w.note (.asyncFired req true) with supply := supply }
  /-- a success is written -/
  writes : ∀ pkg, StagesPass cfg req w pkg → ∃ t supply, w.transport = some t ∧
    w' = req.file cfg (queueWrite req.writeCb t (some pkg)
      { w.note (.asyncFired req true) with supply := supply })

/-- **The package is there, or a later stage fails.** Where the message is too long the
later stages end with the allocation of the context. -/
def PkgCaught (cfg : Config) (req : TcpReq) (w : World) : Prop :=
  ∀ buf supply, Encodes cfg req w (.ok (buf, supply)) →
    writeAllocated (afterPkgEncode buf.base supply) = true →
    buf.base.length < pkgMaxBodyBytes ∧
      ((malloc supply).1 = true ∨ writeAccepted (afterPkgEncode buf.base supply) = false)

theorem pkgEncode_eq_none {supply : List Bool} {type : ℕ} {msg : Bytes} :
    pkgEncode supply type msg = none ↔ pkgMaxBodyBytes ≤ msg.length ∨ (malloc supply).1 = false := by
  rw [pkgEncode]
  by_cases hlong : pkgMaxBodyBytes ≤ msg.length
  · simp [hlong]
  · cases halloc : (malloc supply).1 with
    | false => simp [hlong]
    | true =>
      simp only [if_neg hlong, if_true]
      split <;> simp [hlong]

section Contract

variable {cfg : Config} {req : TcpReq} {w : World} {buf : MsgBuf} {supply : List Bool}

/-- What the handler does with a message that was encoded. -/
theorem asyncWriteCb_of_encoded (hrun : w.halted = none) (hlife : w.Lifecycle)
    (henc : Encodes cfg req w (.ok (buf, supply))) :
    ∃ supply', w.transport = some req.transport ∧ asyncWriteCb cfg req w =
      afterStages cfg req (stageAfterMsg req.transport buf.base supply)
        { w.note (.asyncFired req true) with supply := supply' } := by
  obtain ⟨hwork, hmsg⟩ := henc
  have ht : w.transport = some req.transport := hlife.current _ hwork
  obtain ⟨supply', hstage⟩ := sendStages_of_encoded (t := req.transport) hmsg
  rw [← ht] at hstage
  exact ⟨supply', ht, asyncWriteCb_of_working hrun hwork hstage⟩

/-- Where every failure is caught, a failing stage ends in the error path. -/
theorem stageAfterMsg_failed {t : ℕ} (hcaught : PkgCaught cfg req w)
    (henc : Encodes cfg req w (.ok (buf, supply)))
    (hfails : pkgEncode supply pkgData buf.base = none ∨
      writeAllocated (afterPkgEncode buf.base supply) = false ∨
      writeAccepted (afterPkgEncode buf.base supply) = false) :
    stageAfterMsg t buf.base supply = .failed := by
  rw [stageAfterMsg]
  cases halloc : writeAllocated (afterPkgEncode buf.base supply) with
  | false => rfl
  | true =>
    obtain ⟨hshort, hpkg⟩ := hcaught buf supply henc halloc
    have hnot : ¬ pkgMaxBodyBytes ≤ buf.base.length := Nat.not_le.mpr hshort
    have hwrite : writeAccepted (afterPkgEncode buf.base supply) = false := by
      rcases hfails with hnone | hno | hwrite
      · rcases pkgEncode_eq_none.mp hnone with hlong | hno
        · exact absurd hlong hnot
        · exact hpkg.resolve_left (by simp [hno])
      · exact absurd hno (by simp [halloc])
      · exact hwrite
    simp [hnot, hwrite]

theorem sendContract_of_caught (hrun : w.halted = none) (hlife : w.Lifecycle)
    (hcaught : PkgCaught cfg req w) : SendContract cfg req w (asyncWriteCb cfg req w) := by
  constructor
  · rintro (⟨hwork, hmsg⟩ | ⟨buf, supply, henc, hfails⟩)
    · exact ⟨w.supply, asyncWriteCb_of_working hrun hwork (sendStages_of_failed hmsg)⟩
    · obtain ⟨supply', -, heq⟩ := asyncWriteCb_of_encoded hrun hlife henc
      rw [stageAfterMsg_failed hcaught henc hfails] at heq
      exact ⟨supply', heq⟩
  · rintro pkg ⟨buf, supply, henc, hpkg, halloc, hwrite⟩
    obtain ⟨supply', ht, heq⟩ := asyncWriteCb_of_encoded hrun hlife henc
    have hshort : ¬ pkgMaxBodyBytes ≤ buf.base.length := by
      intro hlong
      rw [pkgEncode_eq_none.mpr (.inl hlong)] at hpkg
      exact absurd hpkg (by simp)
    refine ⟨req.transport, supply', ht, ?_⟩
    rw [heq, stageAfterMsg]
    simp only [halloc, hwrite, hpkg, not_true_eq_false, if_false, if_neg hshort, if_true]
    rfl

theorem caught_of_sendContract (hrun : w.halted = none) (hlife : w.Lifecycle)
    (h : SendContract cfg req w (asyncWriteCb cfg req w)) : PkgCaught cfg req w := by
  intro buf supply henc halloc
  obtain ⟨supply', -, heq⟩ := asyncWriteCb_of_encoded hrun hlife henc
  -- a failure behind the message encoder is reported
  have hreports : pkgEncode supply pkgData buf.base = none → ∃ supply₂,
      asyncWriteCb cfg req w =
        afterStages cfg req .failed { w.note (.asyncFired req true) with supply := supply₂ } :=
    fun hnone => h.reports (.inr ⟨buf, supply, henc, .inl hnone⟩)
  by_cases hlong : pkgMaxBodyBytes ≤ buf.base.length
  · -- too long, and nothing stops the code before it reads the pointer
    obtain ⟨supply₂, hfailed⟩ := hreports (pkgEncode_eq_none.mpr (.inl hlong))
    rw [heq, stageAfterMsg] at hfailed
    simp only [halloc, not_true_eq_false, if_false, if_pos hlong] at hfailed
    exact absurd hfailed.symm (afterStages_failed_ne_crashed supply₂ supply')
  · refine ⟨Nat.not_le.mp hlong, ?_⟩
    by_contra hnot
    rw [not_or] at hnot
    obtain ⟨hpkg, hwrite⟩ := hnot
    -- no package, and it is written all the same
    obtain ⟨supply₂, hfailed⟩ := hreports (pkgEncode_eq_none.mpr (.inr (Bool.not_eq_true _ ▸ hpkg)))
    rw [Bool.not_eq_false] at hwrite
    rw [heq, stageAfterMsg] at hfailed
    simp only [halloc, hwrite, not_true_eq_false, if_false, if_neg hlong, if_true] at hfailed
    exact absurd hfailed.symm (afterStages_failed_ne_queued supply₂ supply' _ _)

end Contract

/-! ## Runs -/

/-- The state in which the async of a request or notify finds the client. -/
def World.taken (supply : List Bool) (i : ℕ) (w : World) : World :=
  { w with supply := supply, asyncs := w.asyncs.eraseIdx i }

theorem step_asyncWrite {cfg : Config} {w w' : World} {supply : List Bool} {i : ℕ} {req : TcpReq}
    (hreq : w.asyncs[i]? = some req) (h : step cfg supply (.asyncWrite i) w = some w') :
    w' = asyncWriteCb cfg req (w.taken supply i) := by
  rw [step] at h
  split at h
  · exact absurd h (by simp)
  · simp only [userStep, loopStep, hreq] at h
    split at h
    · exact (Option.some.inj h).symm
    · exact absurd h (by simp)

/-- **Failed sends.** Whenever the async of a request or notify is handled, the contract is
met exactly if a missing package is caught by one of the stages behind. -/
theorem sendContract_iff {cfg : Config} {w w' : World} {supply : List Bool} {i : ℕ} {req : TcpReq}
    (h : Reachable cfg w) (hreq : w.asyncs[i]? = some req)
    (hstep : step cfg supply (.asyncWrite i) w = some w') :
    SendContract cfg req (w.taken supply i) w' ↔ PkgCaught cfg req (w.taken supply i) := by
  have hlife : w.Lifecycle := reach_lifecycle h
  have hlife' : (w.taken supply i).Lifecycle := hlife.of_eq rfl rfl rfl id
  have hhalted : w.halted = none := step_halted hstep
  have hrun : (w.taken supply i).halted = none := hhalted
  rw [step_asyncWrite hreq hstep]
  exact ⟨caught_of_sendContract hrun hlife', sendContract_of_caught hrun hlife'⟩

/-- A client that has accepted a request. -/
def acceptedRun : List (List Bool × Label) :=
  plainStart ++ [([], .call (.request [97] (some (.obj []))))]

/-- When its async fires and all calls succeed, the package is written. -/
theorem sendContract_acceptedRun :
    ∃ w req w', runSteps (plainConfig false) acceptedRun plainInit = some w ∧
      w.asyncs[0]? = some req ∧ step (plainConfig false) [] (.asyncWrite 0) w = some w' ∧
      (∃ pkg, StagesPass (plainConfig false) req (w.taken [] 0) pkg) ∧
      SendContract (plainConfig false) req (w.taken [] 0) w' := by
  have hrun : ∃ w req w' buf pkg, runSteps (plainConfig false) acceptedRun plainInit = some w ∧
      w.asyncs[0]? = some req ∧ step (plainConfig false) [] (.asyncWrite 0) w = some w' ∧
      Encodes (plainConfig false) req (w.taken [] 0) (.ok (buf, [])) ∧
      buf.base.length < pkgMaxBodyBytes ∧ pkgEncode [] pkgData buf.base = some pkg :=
    ⟨_, _, _, _, _, rfl, rfl, rfl, ⟨rfl, rfl⟩, by decide, rfl⟩
  obtain ⟨w, req, w', buf, pkg, hrun, hreq, hstep, henc, hshort, hpkg⟩ := hrun
  have hleft : afterPkgEncode buf.base [] = [] := by
    rw [afterPkgEncode]
    split <;> rfl
  have hcaught : PkgCaught (plainConfig false) req (w.taken [] 0) := by
    intro buf' supply henc' _
    obtain ⟨rfl, rfl⟩ := Prod.mk.inj (Except.ok.inj (henc.2.symm.trans henc'.2))
    exact ⟨hshort, .inl rfl⟩
  refine ⟨w, req, w', hrun, hreq, hstep, ⟨pkg, buf, [], henc, hpkg, ?_, ?_⟩, ?_⟩
  · rw [hleft]
    rfl
  · rw [hleft]
    rfl
  · exact (sendContract_iff (reachable_of_run hrun) hreq hstep).mpr hcaught

/-- When the package cannot be allocated and nothing else fails, a buffer of length `-1` is
written, and the request is filed. -/
theorem not_sendContract_acceptedRun :
    ∃ w req w', runSteps (plainConfig false) acceptedRun plainInit = some w ∧
      Reachable (plainConfig false) w ∧ w.asyncs[0]? = some req ∧
      step (plainConfig false) [true, false] (.asyncWrite 0) w = some w' ∧
      StageFails (plainConfig false) req (w.taken [true, false] 0) ∧ w'.requests = [(1, req)] ∧
      ¬ SendContract (plainConfig false) req (w.taken [true, false] 0) w' := by
  have hrun : ∃ w req w' buf, runSteps (plainConfig false) acceptedRun plainInit = some w ∧
      w.asyncs[0]? = some req ∧ step (plainConfig false) [true, false] (.asyncWrite 0) w = some w' ∧
      Encodes (plainConfig false) req (w.taken [true, false] 0) (.ok (buf, [false])) ∧
      pkgEncode [false] pkgData buf.base = none ∧ w'.requests = [(1, req)] ∧
      afterPkgEncode buf.base [false] = [] :=
    ⟨_, _, _, _, rfl, rfl, rfl, ⟨rfl, rfl⟩, rfl, rfl, rfl⟩
  obtain ⟨w, req, w', buf, hrun, hreq, hstep, henc, hpkg, hfiled, hleft⟩ := hrun
  have hreach := reachable_of_run hrun
  refine ⟨w, req, w', hrun, hreach, hreq, hstep, .inr ⟨buf, _, henc, .inl hpkg⟩, hfiled, ?_⟩
  intro hcontract
  have hlife : w.Lifecycle := reach_lifecycle hreach
  have hlife' : (w.taken [true, false] 0).Lifecycle := hlife.of_eq rfl rfl rfl id
  have hhalted : w.halted = none := step_halted hstep
  rw [step_asyncWrite hreq hstep] at hcontract
  have hhalted' : (w.taken [true, false] 0).halted = none := hhalted
  have hcaught := caught_of_sendContract hhalted' hlife' hcontract
  obtain ⟨-, hno | hno⟩ := hcaught buf _ henc (by rw [hleft]; rfl)
  · exact absurd hno (by decide)
  · rw [hleft] at hno
    exact absurd hno (by decide)

end Libpomelo
