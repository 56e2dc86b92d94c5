import Libpomelo.Turns

/-!
# Heartbeat and timeout take turns

Two timers watch over a connection. The heartbeat timer sends a heartbeat and stops itself;
the timeout timer then waits for an answer. `pc__heartbeat` stops the second and starts the
first again: after a heartbeat from the server, and after every handshake response. So

* the two timers never run at the same time;
* the timeout timer runs only while a heartbeat has gone out that nothing answered yet
  (`Unanswered`);
* hence every timeout that is reported was deserved.

libuv arms a repeating timer again before it calls back. Both callbacks begin by stopping
their timer, so the second round is never seen.
-/

namespace Libpomelo

/-- A heartbeat was sent, and since then neither a heartbeat nor an accepted handshake
response came in. -/
def Unanswered (trace : List Event) : Prop :=
  ∃ since write before, trace = since ++ .wrote write :: before ∧ write.cb = .heartbeatReq ∧
    ∀ e ∈ since, ¬ e.Answers

/-- The event says that the server did not answer in time. -/
def Event.ReportsTimeout (e : Event) : Prop := e = .timedOut ∨ e = .failure .heartbeatTimeout

/-- Every timeout came while a heartbeat was unanswered. -/
def Deserved (trace : List Event) : Prop :=
  ∀ newer e older, trace = newer ++ e :: older → e.ReportsTimeout → Unanswered older

/-- **The timers take turns**, as long as the program runs. -/
structure World.Alternates (w : World) : Prop where
  /-- not both at the same time -/
  one : w.halted = none → w.heartbeatTimer.any Timer.active = true →
    w.timeoutTimer.any Timer.active = false
  /-- the timeout timer waits for something -/
  waits : w.halted = none → w.timeoutTimer.any Timer.active = true → Unanswered w.trace
  /-- the timeouts so far -/
  deserved : Deserved w.trace

/-! ## Histories -/

section Histories

variable {trace : List Event} {e : Event}

theorem Unanswered.append (h : Unanswered trace) {newer : List Event}
    (hnewer : ∀ e ∈ newer, ¬ e.Answers) : Unanswered (newer ++ trace) := by
  obtain ⟨since, write, before, hsplit, hcb, hsince⟩ := h
  refine ⟨newer ++ since, write, before, by rw [hsplit, List.append_assoc], hcb, ?_⟩
  intro e he
  rcases List.mem_append.1 he with he | he
  · exact hnewer e he
  · exact hsince e he

theorem Unanswered.cons (h : Unanswered trace) (he : ¬ e.Answers) : Unanswered (e :: trace) := by
  have hone : ∀ e' ∈ [e], ¬ e'.Answers := by
    intro e' he'
    rw [List.mem_singleton.1 he']
    exact he
  exact h.append hone

theorem Deserved.cons (h : Deserved trace) (he : e.ReportsTimeout → Unanswered trace) :
    Deserved (e :: trace) := by
  intro newer e' older hsplit hreports
  cases newer with
  | nil =>
    obtain ⟨rfl, rfl⟩ := List.cons.inj hsplit
    exact he hreports
  | cons e'' newer => exact h newer e' older (List.cons.inj hsplit).2 hreports

end Histories

/-! ## Timers -/

/-- Setting the interval does not start a timer. -/
theorem any_map_uvTimerSetRepeat (timer : Option Timer) (interval : ℤ) :
    (timer.map (uvTimerSetRepeat · interval)).any Timer.active = timer.any Timer.active := by
  cases timer with
  | none => rfl
  | some timer => rfl

/-- The heartbeat that a handshake response asks for, in seconds; none without `sys`. -/
def heartbeatAsked (res : Json) : ℤ :=
  match jsonObjectGet (some res) "sys" with
  | some sys => jsonIntegerValue (jsonObjectGet (some sys) "heartbeat")
  | none => 0

/-- `client->heartbeat` for such a response; the product is stored in an `int`. -/
def heartbeatMillis (res : Json) : ℤ := Int.bmod (heartbeatAsked res * 1000) (2 ^ 32)

/-- `client->timeout`. -/
def timeoutMillis (res : Json) : ℤ :=
  Int.bmod (heartbeatMillis res * heartbeatTimeoutFactor) (2 ^ 32)

/-- **What a handshake response does to the timers.** Their intervals are set if it asks for a
heartbeat, and left as they are if it does not. -/
theorem setupSys_timers (res : Json) (w : World) :
    (setupSys res w).heartbeatTimer = (if 0 < heartbeatAsked res
      then w.heartbeatTimer.map (uvTimerSetRepeat · (heartbeatMillis res))
      else w.heartbeatTimer) ∧
    (setupSys res w).timeoutTimer = (if 0 < heartbeatAsked res
      then w.timeoutTimer.map (uvTimerSetRepeat · (timeoutMillis res))
      else w.timeoutTimer) := by
  have hprotos : ∀ sys w, (setupProtos sys w).heartbeatTimer = w.heartbeatTimer ∧
      (setupProtos sys w).timeoutTimer = w.timeoutTimer := by
    intro sys w
    rw [setupProtos]
    split <;> exact ⟨rfl, rfl⟩
  have hdict : ∀ sys w, (setupDictionary sys w).heartbeatTimer = w.heartbeatTimer ∧
      (setupDictionary sys w).timeoutTimer = w.timeoutTimer := by
    intro sys w
    rw [setupDictionary]
    split <;> exact ⟨rfl, rfl⟩
  cases hsys : jsonObjectGet (some res) "sys" with
  | some sys =>
    simp only [setupSys, timeoutMillis, heartbeatMillis, heartbeatAsked, hsys]
    rw [(hprotos sys _).1, (hprotos sys _).2, (hdict sys _).1, (hdict sys _).2, setupHeartbeat]
    dsimp only
    split
    · next hnone => rw [if_neg (not_lt.2 hnone), if_neg (not_lt.2 hnone)]; exact ⟨rfl, rfl⟩
    · next hsome => rw [if_pos (not_le.1 hsome), if_pos (not_le.1 hsome)]; exact ⟨rfl, rfl⟩
  | none =>
    simp only [setupSys, heartbeatAsked, hsys]
    exact ⟨rfl, rfl⟩

/-- It starts no timer by itself. -/
theorem setupSys_active (res : Json) (w : World) :
    (setupSys res w).heartbeatTimer.any Timer.active = w.heartbeatTimer.any Timer.active ∧
      (setupSys res w).timeoutTimer.any Timer.active = w.timeoutTimer.any Timer.active := by
  rw [(setupSys_timers res w).1, (setupSys_timers res w).2]
  split
  · exact ⟨any_map_uvTimerSetRepeat _ _, any_map_uvTimerSetRepeat _ _⟩
  · exact ⟨rfl, rfl⟩

/-! ## Moves -/

section Moves

variable {cfg : Config} {begins : Bool} {w w' : World}

/-- The same timers run. -/
theorem World.Alternates.of_eq (h : w.Alternates) (hhalted : w'.halted = none → w.halted = none)
    (hheartbeat : w'.heartbeatTimer.any Timer.active = w.heartbeatTimer.any Timer.active)
    (htimeout : w'.timeoutTimer.any Timer.active = w.timeoutTimer.any Timer.active)
    (htrace : w'.trace = w.trace) : w'.Alternates := by
  refine ⟨?_, ?_, ?_⟩
  · rw [hheartbeat, htimeout]
    exact fun hh => h.one (hhalted hh)
  · rw [htimeout, htrace]
    exact fun hh => h.waits (hhalted hh)
  · rw [htrace]
    exact h.deserved

/-- The timeout timer does not run. -/
theorem World.Alternates.idle (h : Deserved w.trace)
    (htimeout : w.timeoutTimer.any Timer.active = false) : w.Alternates := by
  refine ⟨fun _ _ => htimeout, ?_, h⟩
  intro _ hactive
  rw [htimeout] at hactive
  exact absurd hactive (by decide)

/-- An event that answers nothing. -/
theorem World.Alternates.note {e : Event} (h : w.Alternates) (he : ¬ e.Answers)
    (hreports : e.ReportsTimeout → Unanswered w.trace) : (w.note e).Alternates :=
  ⟨h.one, fun hh hactive => (h.waits hh hactive).cons he, h.deserved.cons hreports⟩

/-- An event that is neither an answer nor a timeout. -/
theorem World.Alternates.aside {e : Event} (h : w.Alternates) (he : ¬ e.Answers)
    (hfired : e ≠ .timedOut) (hfailure : e ≠ .failure .heartbeatTimeout) :
    (w.note e).Alternates :=
  h.note he fun hreports => absurd hreports (not_or.2 ⟨hfired, hfailure⟩)

theorem Event.Quiet.alternates {e : Event} (hq : e.Quiet w) (hw : w.Alternates) :
    (w.note e).Alternates := by
  by_cases hans : e.Answers
  · -- what answers is recorded while the timeout timer does not run
    have hanswered : w.Answered := by
      cases e with
      | pkg type body => exact hq hans
      | agreed => exact hq.1
      | _ => exact absurd hans id
    have hdeserved : Deserved (w.note e).trace := by
      apply hw.deserved.cons
      rintro (rfl | rfl) <;> exact absurd hans id
    refine ⟨hw.one, ?_, hdeserved⟩
    intro hhalted hactive
    rcases hanswered with hidle | hsome
    · rw [show w.timeoutTimer.any Timer.active = true from hactive] at hidle
      exact absurd hidle (by decide)
    · rw [show w.halted = none from hhalted] at hsome
      exact absurd hsome (by decide)
  · apply hw.note hans
    rintro (rfl | rfl)
    · exact hw.waits hq.2 hq.1
    · obtain ⟨newer, older, hsplit, hnewer⟩ := hq rfl
      have holder : Unanswered older := hw.deserved newer .timedOut older hsplit (.inl rfl)
      rw [hsplit]
      exact (holder.cons id).append hnewer

theorem Change.alternates (h : Change w w') (hw : w.Alternates) (hhalted : w'.halted = w.halted) :
    w'.Alternates := by
  cases h with
  | stopTimers => exact .idle hw.deserved (any_map_uvTimerStop _)
  | fireHeartbeat hactive =>
    refine ⟨?_, hw.waits, hw.deserved⟩
    intro _ hno
    rw [any_map_uvTimerStop] at hno
    exact absurd hno (by decide)
  | beatSent write rest hactive _ _ hcb htrace =>
    refine ⟨?_, ?_, hw.deserved⟩
    · intro _ hno
      rw [any_map_uvTimerStop] at hno
      exact absurd hno (by decide)
    · exact fun _ _ => ⟨[], write, rest, htrace, hcb, fun _ he => absurd he List.not_mem_nil⟩
  | fireTimeout => exact .idle hw.deserved (any_map_uvTimerStop _)
  | beat => exact .idle hw.deserved rfl
  | loadProtoVer =>
    rw [Libpomelo.loadProtoVer]
    split
    · exact hw.of_eq id rfl rfl rfl
    · exact hw
  | _ => exact hw.of_eq id rfl rfl rfl

theorem Move.alternates (h : Move cfg begins w w') (hw : w.Alternates) : w'.Alternates := by
  cases h with
  | inert w' hin hchange =>
    apply hchange.alternates hw
    rw [hin.eq]
  | halt h =>
    exact ⟨fun hh => absurd hh (by simp [World.halt]), fun hh => absurd hh (by simp [World.halt]),
      hw.deserved⟩
  | note e hq => exact hq.alternates hw
  | shook w' t res hin heq _ _ =>
    have hactive := setupSys_active res w
    rw [← heq] at hactive
    have hfields : w'.halted = w.halted ∧ w'.trace = w.trace := by
      rw [hin.eq]
      exact ⟨rfl, rfl⟩
    have hset : w'.Alternates :=
      hw.of_eq (fun hh => hfields.1.symm.trans hh) hactive.1 hactive.2 hfields.2
    exact hset.aside id (by simp) (by simp)
  | accept | queueWrite | asyncRequestCb | asyncNotifyCb | sendNotify | release | respond | orphanCb
  | lateCb | reset | disconnect | closeHandled =>
    exact World.Alternates.aside (hw.of_eq id rfl rfl rfl) id (by simp) (by simp)
  | notifyDone i write req done working listed =>
    have hdone : ({ w with writes := w.writes.eraseIdx i }.note
        (.writeDone write done working listed)).Alternates :=
      World.Alternates.aside (hw.of_eq id rfl rfl rfl) id (by simp) (by simp)
    exact hdone.aside id (by simp) (by simp)
  | beginReset _ _ _ _ =>
    have hstop := hw.aside (e := .stop w.state false) id (by simp) (by simp)
    exact hstop.of_eq id rfl rfl rfl
  | close _ _ _ =>
    -- the timers are closed with the client
    have hstop : Deserved (.stop w.state w.reconnecting :: w.trace) :=
      hw.deserved.cons fun h => absurd h (by simp [Event.ReportsTimeout])
    exact .idle (hstop.cons fun h => absurd h (by simp [Event.ReportsTimeout])) rfl
  | _ => exact hw.of_eq id rfl rfl rfl

theorem Link.alternates (h : Link cfg w w') (hw : w.Alternates) : w'.Alternates := by
  cases h with
  | move hm => exact hm.alternates hw
  | launch | greet | connectCb | acked =>
    exact World.Alternates.aside (hw.of_eq id rfl rfl rfl) id (by simp) (by simp)
  | _ => exact hw.of_eq id rfl rfl rfl

end Moves

/-! ## Runs -/

theorem alternates_init (reqId : ℕ) (files : ProtoFiles) : (World.init reqId files).Alternates := by
  refine .idle ?_ rfl
  intro newer e older hsplit
  exact absurd hsplit (by simp [World.init])

theorem kept_alternates {cfg : Config} : Kept cfg World.Alternates where
  init := alternates_init
  link _ _ hw hlink := hlink.alternates hw
  threads _ _ _ _ hw := hw.of_eq id rfl rfl rfl
  start _ _ hw _ _ := World.Alternates.aside (hw.of_eq id rfl rfl rfl) id (by simp) (by simp)
  finish _ hw := hw.of_eq id rfl rfl rfl
  loopEnd _ hw _ := hw.of_eq id rfl rfl rfl

/-- **Heartbeat and timeout take turns.** In every state a run reaches, as long as the
program runs, the heartbeat timer and the timeout timer are not both active, and the timeout
timer is active only while a heartbeat is unanswered; and whenever a heartbeat timeout was
reported, a heartbeat was unanswered. -/
theorem timers_alternate {cfg : Config} {w : World} (h : Reachable cfg w) :
    (w.halted = none →
      ¬ (w.heartbeatTimer.any Timer.active = true ∧ w.timeoutTimer.any Timer.active = true) ∧
      (w.timeoutTimer.any Timer.active = true → Unanswered w.trace)) ∧
    ∀ newer older, w.trace = newer ++ .failure .heartbeatTimeout :: older → Unanswered older := by
  have hw : w.Alternates := kept_alternates.reach h
  refine ⟨?_, ?_⟩
  · intro hrun
    refine ⟨?_, hw.waits hrun⟩
    rintro ⟨hheartbeat, htimeout⟩
    rw [hw.one hrun hheartbeat] at htimeout
    exact absurd htimeout (by decide)
  · exact fun newer older hsplit => hw.deserved newer _ older hsplit (.inr rfl)

/-! A server that asks for a heartbeat every three seconds. -/

/-- `{"code":200,"sys":{"heartbeat":3}}`. -/
def beatResponse : Bytes :=
  [123, 34, 99, 111, 100, 101, 34, 58, 50, 48, 48, 44, 34, 115, 121, 115, 34, 58, 123, 34, 104,
    101, 97, 114, 116, 98, 101, 97, 116, 34, 58, 51, 125, 125]

/-- A client of the small program that can read this response, too. -/
def beatConfig (enableReconnect : Bool) : Config :=
  { plainConfig enableReconnect with
    loadb := fun data =>
      if data = beatResponse then
        some (.obj [("code", .int 200), ("sys", .obj [("heartbeat", .int 3)])])
      else plainLoadb data }

/-- The turns up to the state `WORKING`. -/
def beatStart : List (List Bool × Label) :=
  [([], .connect .connect2), ([], .tcpConnect 0 true), ([], .writeDone 0 true),
    ([], .tcpRead 0 [] (.bytes ([1, 0, 0, 34] ++ beatResponse))), ([], .writeDone 0 true)]

/-- A heartbeat goes out, and nothing comes back in time. -/
theorem timers_alternate_timeout :
    ∃ w, runSteps (beatConfig false) (beatStart ++ [([], .heartbeatTimer), ([], .timeoutTimer)])
        plainInit = some w ∧
      ∃ newer older, w.trace = newer ++ .failure .heartbeatTimeout :: older ∧ Unanswered older := by
  have hrun : ∃ w older, runSteps (beatConfig false)
      (beatStart ++ [([], .heartbeatTimer), ([], .timeoutTimer)]) plainInit = some w ∧
      w.trace = [.closed, .stop .working false] ++ .failure .heartbeatTimeout :: older :=
    ⟨_, _, rfl, rfl⟩
  obtain ⟨w, older, hrun, htrace⟩ := hrun
  have hreach := reachable_of_run hrun
  exact ⟨w, hrun, _, older, htrace, (timers_alternate hreach).2 _ older htrace⟩

end Libpomelo
