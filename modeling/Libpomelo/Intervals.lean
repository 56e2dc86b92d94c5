import Libpomelo.Established
import Libpomelo.Heartbeats

/-!
# Every connection beats as its own response asked

A handshake response may ask for a heartbeat every `h` seconds. The setting is kept twice: in
`client->heartbeat` and `client->timeout`, which nothing reads, and as the intervals of the two
timers, which decide. A reset clears the first copy and keeps the second, and a response that
asks for no heartbeat marks only the first one. So what a timer does depends on the last
response that asked for a heartbeat, whatever connection it came on (`pace`).

As long as no response asks for less than an earlier one, in the sense that once a heartbeat
was asked for every later response asks for one, too (`Steady`), that is the response of the
connection itself: heartbeats go out and timeouts are armed only where they were asked for,
and with the intervals that were asked for (`World.Paced`).
-/

namespace Libpomelo

/-- The handshake response that was processed. -/
def Event.response : Event → Option Json
  | .shook _ res _ _ => some res
  | _ => none

/-- The heartbeat, in seconds, that a handshake response asks for. -/
def Event.asked (e : Event) : ℤ := (e.response.map heartbeatAsked).getD 0

/-- The latest handshake response that was processed on this transport. -/
def ownResponse (t : ℕ) : List Event → Option Json
  | [] => none
  | .shook t' res _ _ :: trace => if t' = some t then some res else ownResponse t trace
  | _ :: trace => ownResponse t trace

/-- Each handshake response asks for an interval whose double fits into an `int`, and one that
asks for no heartbeat comes after none that did. -/
def Steady : List Event → Prop
  | [] => True
  | e :: older => (∀ res ∈ e.response, heartbeatAsked res * 2000 < 2 ^ 31 ∧
      (heartbeatAsked res ≤ 0 → ∀ e' ∈ older, e'.asked ≤ 0)) ∧ Steady older

instance Steady.decidable : DecidablePred Steady
  | [] => .isTrue trivial
  | _ :: older =>
    have := Steady.decidable older
    inferInstanceAs (Decidable (_ ∧ _))

/-- **A connection beats as its own response asked.** -/
structure World.Paced (w : World) : Prop where
  /-- a heartbeat is sent only where one was asked for -/
  sent : ∀ newer write older, w.trace = newer ++ .wrote write :: older →
    write.cb = .heartbeatReq →
    ∃ res, ownResponse write.transport older = some res ∧ 0 < heartbeatAsked res
  /-- the timeout is armed only there, too -/
  armed : w.timeoutTimer.any Timer.active = true →
    ∃ t res, w.transport = some t ∧ ownResponse t w.trace = some res ∧ 0 < heartbeatAsked res
  /-- the intervals of a connection that asked -/
  intervals : ∀ t res, w.transport = some t → ownResponse t w.trace = some res →
    0 < heartbeatAsked res →
    (∀ timer, w.heartbeatTimer = some timer → (timer.period : ℤ) = heartbeatAsked res * 1000) ∧
      ∀ timer, w.timeoutTimer = some timer → (timer.period : ℤ) = heartbeatAsked res * 2000
  /-- the timers of a connection that did not ask -/
  silent : ∀ t res, w.transport = some t → ownResponse t w.trace = some res →
    heartbeatAsked res ≤ 0 →
    w.heartbeatTimer.any Timer.active = false ∧ w.timeoutTimer.any Timer.active = false

/-! ## What drives the timers -/

/-- The heartbeat that was last asked for, on whatever connection. -/
def pace : List Event → ℤ
  | [] => 0
  | e :: trace => if 0 < e.asked then e.asked else pace trace

/-- `repeat` of the heartbeat timer for this heartbeat. -/
def heartbeatPeriod (h : ℤ) : ℕ := asUInt64 (Int.bmod (h * 1000) (2 ^ 32))

/-- `repeat` of the timeout timer. -/
def timeoutPeriod (h : ℤ) : ℕ :=
  asUInt64 (Int.bmod (Int.bmod (h * 1000) (2 ^ 32) * heartbeatTimeoutFactor) (2 ^ 32))

/-- **The timers follow the pace.** -/
structure World.Paces (w : World) : Prop where
  /-- the current transport works -/
  live : ∀ t, w.transport = some t → w.working t = true
  /-- a transport with a response was connected once -/
  past : ∀ t res, ownResponse t w.trace = some res →
    ∃ s, w.transports[t]? = some s ∧ (s = .working ∨ s = .closed)
  /-- the latest response of all is the one of the current connection, if it has one -/
  latest : ∀ t res, w.transport = some t → ownResponse t w.trace = some res → Steady w.trace →
    pace w.trace = max (heartbeatAsked res) 0
  /-- the interval of the heartbeat timer -/
  beats : ∀ timer, w.heartbeatTimer = some timer → timer.period = heartbeatPeriod (pace w.trace)
  /-- the interval of the timeout timer -/
  waits : ∀ timer, w.timeoutTimer = some timer → timer.period = timeoutPeriod (pace w.trace)
  /-- a timer runs only if somebody has asked -/
  running : w.heartbeatTimer.any Timer.active = true ∨ w.timeoutTimer.any Timer.active = true →
    0 < pace w.trace
  /-- the timeout timer runs only on a connection -/
  armed : w.timeoutTimer.any Timer.active = true →
    ∃ t res, w.transport = some t ∧ ownResponse t w.trace = some res
  /-- the heartbeats so far -/
  sent : Steady w.trace → ∀ newer write older, w.trace = newer ++ .wrote write :: older →
    write.cb = .heartbeatReq →
    ∃ res, ownResponse write.transport older = some res ∧ 0 < heartbeatAsked res

/-! ## Histories -/

section Histories

variable {trace : List Event} {e : Event}

theorem ownResponse_cons (t : ℕ) (he : ∀ t res server client, e ≠ .shook t res server client) :
    ownResponse t (e :: trace) = ownResponse t trace := by
  cases e with
  | shook t res server client => exact absurd rfl (he t res server client)
  | _ => rfl

theorem pace_cons (he : ∀ t res server client, e ≠ .shook t res server client) :
    pace (e :: trace) = pace trace := by
  cases e with
  | shook t res server client => exact absurd rfl (he t res server client)
  | _ => rfl

/-- A response that was processed on a transport leaves it with one. -/
theorem ownResponse_of_mem {t : ℕ} {res : Json} {server client : Option Json}
    (h : .shook (some t) res server client ∈ trace) : ∃ res, ownResponse t trace = some res := by
  induction trace with
  | nil => exact absurd h List.not_mem_nil
  | cons e trace ih =>
    rcases List.mem_cons.1 h with rfl | hold
    · exact ⟨res, if_pos rfl⟩
    · obtain ⟨res', hres'⟩ := ih hold
      cases e with
      | shook t' res₀ server₀ client₀ =>
        rw [ownResponse]
        split
        · exact ⟨res₀, rfl⟩
        · exact ⟨res', hres'⟩
      | _ => exact ⟨res', hres'⟩

theorem pace_nonneg : ∀ trace : List Event, 0 ≤ pace trace
  | [] => le_refl 0
  | e :: trace => by
    rw [pace]
    split
    · next h => exact h.le
    · exact pace_nonneg trace

/-- Nobody asked. -/
theorem pace_eq_zero (h : ∀ e ∈ trace, e.asked ≤ 0) : pace trace = 0 := by
  induction trace with
  | nil => rfl
  | cons e trace ih =>
    rw [pace, if_neg (not_lt.2 (h e (List.mem_cons_self ..)))]
    exact ih fun e' he' => h e' (List.mem_cons_of_mem _ he')

/-- In a steady history the pace is what the latest response asks for. -/
theorem Steady.pace_shook {t : Option ℕ} {res : Json} {server client : Option Json}
    (h : Steady (.shook t res server client :: trace)) :
    pace (.shook t res server client :: trace) = max (heartbeatAsked res) 0 := by
  rw [pace]
  split
  · next hpos => exact (max_eq_left hpos.le).symm
  · next hneg =>
    have hnone : heartbeatAsked res ≤ 0 := not_lt.1 hneg
    rw [max_eq_right hnone]
    exact pace_eq_zero ((h.1 res rfl).2 hnone)

/-- The responses of a steady history ask for intervals that fit. -/
theorem Steady.fits (h : Steady trace) : pace trace * 2000 < 2 ^ 31 := by
  induction trace with
  | nil => decide
  | cons e trace ih =>
    rw [pace]
    split
    · cases e with
      | shook t res server client => exact (h.1 res rfl).1
      | _ => exact (by decide : (0 : ℤ) * 2000 < 2 ^ 31)
    · exact ih h.2

end Histories

/-! ## Intervals -/

/-- An `int` that is not negative keeps its value. -/
theorem asUInt64_bmod {i : ℤ} (hpos : 0 ≤ i) (hfits : i < 2 ^ 31) :
    (asUInt64 (Int.bmod i (2 ^ 32)) : ℤ) = i := by
  have hlt : i < 2 ^ 64 := hfits.trans (by decide)
  rw [Int.bmod_eq_of_le (by omega) (by omega), asUInt64, Int.emod_eq_of_lt hpos hlt,
    Int.toNat_of_nonneg hpos]

theorem heartbeatPeriod_eq {h : ℤ} (hpos : 0 ≤ h) (hfits : h * 2000 < 2 ^ 31) :
    (heartbeatPeriod h : ℤ) = h * 1000 :=
  asUInt64_bmod (by omega) (by omega)

theorem timeoutPeriod_eq {h : ℤ} (hpos : 0 ≤ h) (hfits : h * 2000 < 2 ^ 31) :
    (timeoutPeriod h : ℤ) = h * 2000 := by
  have hbeat : Int.bmod (h * 1000) (2 ^ 32) = h * 1000 := Int.bmod_eq_of_le (by omega) (by omega)
  have hfactor : h * 1000 * heartbeatTimeoutFactor = h * 2000 := mul_assoc h 1000 2
  rw [timeoutPeriod, hbeat, hfactor]
  exact asUInt64_bmod (by omega) hfits

/-- Stopping a timer keeps its interval. -/
theorem map_period_stop (timer : Option Timer) :
    (timer.map uvTimerStop).map Timer.period = timer.map Timer.period := by
  cases timer with
  | none => rfl
  | some timer => rfl

/-- So does starting it. -/
theorem map_period_again (timer : Option Timer) :
    (timer.map uvTimerAgain).map Timer.period = timer.map Timer.period := by
  cases timer with
  | none => rfl
  | some timer =>
    rw [Option.map_some, Option.map_some, uvTimerAgain]
    split <;> rfl

/-- A timer with this interval, if there is one. -/
theorem period_of_map {timer timer' : Option Timer} {p : ℕ}
    (heq : timer'.map Timer.period = timer.map Timer.period)
    (h : ∀ tm, timer = some tm → tm.period = p) : ∀ tm, timer' = some tm → tm.period = p := by
  intro tm' htm'
  rw [htm'] at heq
  cases htimer : timer with
  | none =>
    rw [htimer] at heq
    exact absurd heq (by simp)
  | some tm =>
    rw [htimer] at heq
    exact (Option.some.inj heq).trans (h tm htimer)

/-- A timer without an interval is not started. -/
theorem active_again {timer : Timer} (h : (uvTimerAgain timer).active = true) :
    timer.active = true ∨ timer.period ≠ 0 := by
  rw [uvTimerAgain] at h
  split at h
  · next hne => exact .inr hne
  · exact .inl h

/-- Where the interval follows the pace, a timer that can run has somebody who asked. -/
theorem pace_pos {trace : List Event} {f : ℤ → ℕ} (hf : f 0 = 0) (h : f (pace trace) ≠ 0) :
    0 < pace trace := by
  rcases (pace_nonneg trace).lt_or_eq with hpos | hzero
  · exact hpos
  · rw [← hzero] at h
    exact absurd hf h

/-! ## Moves -/

section Moves

variable {cfg : Config} {begins : Bool} {w w' : World}

/-- The same connection and the same timers. -/
theorem World.Paces.of_eq (h : w.Paces) (htransport : w'.transport = w.transport)
    (htransports : w'.transports = w.transports) (hheartbeat : w'.heartbeatTimer = w.heartbeatTimer)
    (htimeout : w'.timeoutTimer = w.timeoutTimer) (htrace : w'.trace = w.trace) : w'.Paces := by
  have hwork : w'.working = w.working := by
    funext t
    rw [World.working, htransports]
    rfl
  refine ⟨?_, ?_, ?_, ?_, ?_, ?_, ?_, ?_⟩
  · rw [htransport, hwork]
    exact h.live
  · rw [htransports, htrace]
    exact h.past
  · rw [htransport, htrace]
    exact h.latest
  · rw [hheartbeat, htrace]
    exact h.beats
  · rw [htimeout, htrace]
    exact h.waits
  · rw [hheartbeat, htimeout, htrace]
    exact h.running
  · rw [htimeout, htransport, htrace]
    exact h.armed
  · rw [htrace]
    exact h.sent

/-- An event that is no response, with what it has to follow if it is a heartbeat. -/
theorem World.Paces.note {e : Event} (h : w.Paces)
    (he : ∀ t res server client, e ≠ .shook t res server client)
    (hsent : ∀ write, e = .wrote write → write.cb = .heartbeatReq → Steady w.trace →
      ∃ res, ownResponse write.transport w.trace = some res ∧ 0 < heartbeatAsked res) :
    (w.note e).Paces := by
  have hown : ∀ t, ownResponse t (w.note e).trace = ownResponse t w.trace :=
    fun t => ownResponse_cons t he
  have hpace : pace (w.note e).trace = pace w.trace := pace_cons he
  refine ⟨h.live, ?_, ?_, ?_, ?_, ?_, ?_, ?_⟩
  · intro t res
    rw [hown]
    exact h.past t res
  · intro t res ht hres hsteady
    rw [hown] at hres
    rw [hpace]
    exact h.latest t res ht hres hsteady.2
  · rw [hpace]
    exact h.beats
  · rw [hpace]
    exact h.waits
  · rw [hpace]
    exact h.running
  · intro hactive
    obtain ⟨t, res, ht, hres⟩ := h.armed hactive
    exact ⟨t, res, ht, (hown t).trans hres⟩
  · intro hsteady newer write older hsplit hcb
    cases newer with
    | nil =>
      -- the event is this write
      obtain ⟨rfl, rfl⟩ := List.cons.inj hsplit
      exact hsent write rfl hcb hsteady.2
    | cons e' newer => exact h.sent hsteady.2 newer write older (List.cons.inj hsplit).2 hcb

/-- An event that is neither a response nor a heartbeat. -/
theorem World.Paces.aside {e : Event} (h : w.Paces)
    (he : ∀ t res server client, e ≠ .shook t res server client) (hwrote : ∀ write, e ≠ .wrote write) :
    (w.note e).Paces :=
  h.note he fun write heq => absurd heq (hwrote write)

/-- Only the timers change, and their intervals do not. -/
theorem World.Paces.timers (h : w.Paces) (htransport : w'.transport = w.transport)
    (htransports : w'.transports = w.transports) (htrace : w'.trace = w.trace)
    (hbeats : w'.heartbeatTimer.map Timer.period = w.heartbeatTimer.map Timer.period)
    (hwaits : w'.timeoutTimer.map Timer.period = w.timeoutTimer.map Timer.period)
    (hrunning : w'.heartbeatTimer.any Timer.active = true ∨ w'.timeoutTimer.any Timer.active = true →
      0 < pace w.trace)
    (harmed : w'.timeoutTimer.any Timer.active = true →
      ∃ t res, w.transport = some t ∧ ownResponse t w.trace = some res) : w'.Paces := by
  have hsame : { w with heartbeatTimer := w'.heartbeatTimer, timeoutTimer := w'.timeoutTimer }.Paces :=
    ⟨h.live, h.past, h.latest, period_of_map hbeats h.beats, period_of_map hwaits h.waits, hrunning,
      harmed, h.sent⟩
  exact hsame.of_eq htransport htransports rfl rfl htrace

/-- **The inert changes.** The timeout timer is started after a heartbeat, by a client that is
`WORKING`: its connection has had a response. -/
theorem Change.paces (h : Change w w') (hw : w.Paces) (hest : w.Established) : w'.Paces := by
  cases h with
  | stopTimers =>
    refine hw.timers rfl rfl rfl (map_period_stop _) (map_period_stop _) ?_ ?_
    · rintro (hactive | hactive) <;> exact absurd hactive (by simp [Libpomelo.stopTimers])
    · exact fun hactive => absurd hactive (by simp [Libpomelo.stopTimers])
  | fireHeartbeat hactive =>
    exact hw.timers rfl rfl rfl (map_period_stop _) rfl (fun _ => hw.running (.inl hactive)) hw.armed
  | beatSent write rest hactive hst ht _ _ =>
    refine hw.timers rfl rfl rfl (map_period_stop _) (map_period_again _)
      (fun _ => hw.running (.inl hactive)) ?_
    intro _
    obtain ⟨res, server, client, -, -, -, -, hshook, -⟩ := hest.acked hst write.transport ht
    obtain ⟨res', hres'⟩ := ownResponse_of_mem hshook
    exact ⟨write.transport, res', ht, hres'⟩
  | fireTimeout hactive =>
    refine hw.timers rfl rfl rfl rfl (map_period_stop _) (fun _ => hw.running (.inr hactive)) ?_
    exact fun hno => absurd hno (by simp)
  | beat timeout heartbeat htimeout hheartbeat =>
    -- the heartbeat timer starts again with its period, and the timeout stops
    refine hw.timers rfl rfl rfl ?_ ?_ ?_ ?_
    · rw [hheartbeat]
      exact map_period_again (some heartbeat)
    · rw [htimeout]
      rfl
    · rintro (hactive | hactive)
      · rcases active_again hactive with hbefore | hperiod
        · refine hw.running (.inl ?_)
          rw [hheartbeat]
          exact hbefore
        · rw [hw.beats heartbeat hheartbeat] at hperiod
          exact pace_pos (by decide) hperiod
      · exact absurd hactive (by simp [uvTimerStop])
    · exact fun hactive => absurd hactive (by simp [uvTimerStop])
  | loadProtoVer =>
    rw [Libpomelo.loadProtoVer]
    split
    · exact hw.of_eq rfl rfl rfl rfl rfl
    · exact hw
  | _ => exact hw.of_eq rfl rfl rfl rfl rfl

/-- The pace after a response. -/
theorem pace_shook (t : Option ℕ) (res : Json) (server client : Option Json) (trace : List Event) :
    pace (.shook t res server client :: trace) =
      if 0 < heartbeatAsked res then heartbeatAsked res else pace trace := rfl

/-- **A handshake response.** Its connection is the current one, and the intervals are set if
it asks for a heartbeat. -/
theorem World.Paces.shook {res : Json} {server client : Option Json} (h : w.Paces)
    (hin : w.Inert w') (hsetup : w' = setupSys res w) :
    (w'.note (.shook w'.transport res server client)).Paces := by
  have htransport : w'.transport = w.transport := by rw [hin.eq]
  have htransports : w'.transports = w.transports := by rw [hin.eq]
  have htrace : w'.trace = w.trace := by rw [hin.eq]
  have hbeat := (setupSys_timers res w).1
  have hwait := (setupSys_timers res w).2
  have hactive := setupSys_active res w
  rw [← hsetup] at hbeat hwait hactive
  have hlive : ∀ t, w'.transport = some t → w'.transports[t]? = some .working := by
    intro t ht
    rw [htransports]
    exact of_decide_eq_true (h.live t (htransport.symm.trans ht))
  -- for the current transport the response is its own; older ones keep theirs
  refine ⟨fun t ht => decide_eq_true (hlive t ht), ?_, ?_, ?_, ?_, ?_, ?_, ?_⟩
  · intro t res' hres'
    simp only [World.note, ownResponse, htrace] at hres' ⊢
    split at hres'
    · next ht => exact ⟨.working, hlive t ht, .inl rfl⟩
    · rw [htransports]
      exact h.past t res' hres'
  · intro t res' ht hres' hsteady
    simp only [World.note, ownResponse, if_pos (show w'.transport = some t from ht)] at hres'
    rw [← Option.some.inj hres']
    exact hsteady.pace_shook
  · intro timer htimer
    simp only [World.note, htrace] at htimer ⊢
    rw [hbeat] at htimer
    rw [pace_shook]
    split
    · next hpos =>
      rw [if_pos hpos] at htimer
      obtain ⟨timer₀, -, rfl⟩ := Option.map_eq_some_iff.1 htimer
      rfl
    · next hneg =>
      rw [if_neg hneg] at htimer
      exact h.beats timer htimer
  · intro timer htimer
    simp only [World.note, htrace] at htimer ⊢
    rw [hwait] at htimer
    rw [pace_shook]
    split
    · next hpos =>
      rw [if_pos hpos] at htimer
      obtain ⟨timer₀, -, rfl⟩ := Option.map_eq_some_iff.1 htimer
      rfl
    · next hneg =>
      rw [if_neg hneg] at htimer
      exact h.waits timer htimer
  · intro hrun
    simp only [World.note, htrace] at hrun ⊢
    rw [hactive.1, hactive.2] at hrun
    rw [pace_shook]
    split
    · next hpos => exact hpos
    · exact h.running hrun
  · intro hrun
    simp only [World.note, htrace] at hrun ⊢
    rw [hactive.2] at hrun
    obtain ⟨t, res', ht, hres'⟩ := h.armed hrun
    have ht' : w'.transport = some t := htransport.trans ht
    exact ⟨t, res, ht', by rw [ownResponse, if_pos ht']⟩
  · intro hsteady newer write older hsplit hcb
    simp only [World.note, htrace] at hsteady hsplit
    cases newer with
    | nil => exact absurd (List.cons.inj hsplit).1 (by simp)
    | cons e' newer => exact h.sent hsteady.2 newer write older (List.cons.inj hsplit).2 hcb

/-- A heartbeat goes out: the client is `WORKING` and its heartbeat timer runs. -/
theorem World.Paces.due {t : ℕ} (h : w.Paces) (hest : w.Established) (ht : w.transport = some t)
    (hst : w.state = .working) (hactive : w.heartbeatTimer.any Timer.active = true)
    (hsteady : Steady w.trace) :
    ∃ res, ownResponse t w.trace = some res ∧ 0 < heartbeatAsked res := by
  obtain ⟨_, _, _, -, -, -, -, hshook, -⟩ := hest.acked hst t ht
  obtain ⟨res, hres⟩ := ownResponse_of_mem hshook
  have hpace := h.latest t res ht hres hsteady
  have hpos := h.running (.inl hactive)
  exact ⟨res, hres, by omega⟩

/-- The connection is given up while the timeout timer does not run. -/
theorem World.Paces.drop (h : w.Paces) (htransport : w'.transport = none)
    (htransports : w'.transports = (dropTransport w).transports) (htrace : w'.trace = w.trace)
    (hheartbeat : w'.heartbeatTimer = w.heartbeatTimer ∨ w'.heartbeatTimer = none)
    (htimeout : w'.timeoutTimer = w.timeoutTimer ∨ w'.timeoutTimer = none)
    (hidle : w'.timeoutTimer.any Timer.active = false) : w'.Paces := by
  refine ⟨?_, ?_, ?_, ?_, ?_, ?_, ?_, ?_⟩
  · intro t ht
    rw [htransport] at ht
    exact absurd ht (by simp)
  · rw [htransports, htrace]
    exact fun t res hres => dropTransport_keeps (.inr rfl) (h.past t res hres)
  · intro t res ht
    rw [htransport] at ht
    exact absurd ht (by simp)
  · rw [htrace]
    rcases hheartbeat with heq | heq
    · rw [heq]
      exact h.beats
    · rw [heq]
      exact fun _ h => absurd h (by simp)
  · rw [htrace]
    rcases htimeout with heq | heq
    · rw [heq]
      exact h.waits
    · rw [heq]
      exact fun _ h => absurd h (by simp)
  · rw [hidle, htrace]
    rintro (hactive | hactive)
    · rcases hheartbeat with heq | heq
      · rw [heq] at hactive
        exact h.running (.inl hactive)
      · rw [heq] at hactive
        exact absurd hactive (by simp)
    · exact absurd hactive (by decide)
  · intro hactive
    rw [hidle] at hactive
    exact absurd hactive (by decide)
  · rw [htrace]
    exact h.sent

theorem Move.paces (h : Move cfg begins w w') (hw : w.Paces) (hest : w.Established) : w'.Paces := by
  cases h with
  | inert w' _ hchange => exact hchange.paces hw hest
  | note e hq =>
    cases e with
    | shook => exact absurd hq id
    | wrote => exact absurd hq id
    | _ => exact hw.aside (by simp) (by simp)
  | shook w' t res hin hsetup _ _ => exact hw.shook hin hsetup
  | accept | asyncRequestCb | asyncNotifyCb | release | respond | orphanCb | lateCb | reset | disconnect
  | closeHandled =>
    exact World.Paces.aside (hw.of_eq rfl rfl rfl rfl rfl) (by simp) (by simp)
  | sendNotify =>
    refine World.Paces.note (hw.of_eq rfl rfl rfl rfl rfl) (by simp) ?_
    intro write heq hcb
    obtain rfl := Event.wrote.inj heq
    exact absurd hcb (by simp)
  | notifyDone i write req done working listed =>
    have hdone : ({ w with writes := w.writes.eraseIdx i }.note
        (.writeDone write done working listed)).Paces :=
      World.Paces.aside (hw.of_eq rfl rfl rfl rfl rfl) (by simp) (by simp)
    exact hdone.aside (by simp) (by simp)
  | queueWrite cb t data ht hdue _ =>
    refine World.Paces.note (hw.of_eq rfl rfl rfl rfl rfl) (by simp) ?_
    intro write heq hcb hsteady
    obtain rfl := Event.wrote.inj heq
    obtain rfl : cb = .heartbeatReq := hcb
    exact hw.due hest ht hdue.1 hdue.2 hsteady
  | beginReset _ _ _ hidle =>
    have hstop := hw.aside (e := .stop w.state false) (by simp) (by simp)
    exact hstop.drop rfl rfl rfl (.inl rfl) (.inl rfl) hidle
  | close _ _ _ =>
    have hstop := hw.aside (e := .stop w.state w.reconnecting) (by simp) (by simp)
    have hclosed := hstop.aside (e := .closed) (by simp) (by simp)
    exact hclosed.drop rfl rfl rfl (.inr rfl) (.inr rfl) rfl
  | _ => exact hw.of_eq rfl rfl rfl rfl rfl

/-- Other transports appear or fail. -/
theorem World.Paces.transports (h : w.Paces)
    (hw' : w' = { w with connects := w'.connects, transports := w'.transports })
    (hlive : ∀ t, w.transport = some t → w'.working t = true)
    (hpast : ∀ t res, ownResponse t w.trace = some res →
      ∃ s, w'.transports[t]? = some s ∧ (s = .working ∨ s = .closed)) : w'.Paces := by
  rw [hw']
  exact ⟨hlive, hpast, h.latest, h.beats, h.waits, h.running, h.armed, h.sent⟩

/-- A transport is created. -/
theorem World.Paces.append (h : w.Paces) {s : TransportState} (hs : s ≠ .working)
    (connects : List (ℕ × ConnReq)) :
    { w with transports := w.transports ++ [s], connects := connects }.Paces := by
  apply h.transports rfl
  · intro t ht
    exact decide_eq_true ((getElem?_concat_ne hs t).2 (of_decide_eq_true (h.live t ht)))
  · exact fun t res hres => append_keeps s (h.past t res hres)

/-- **A connection starts.** It has had no response yet. -/
theorem World.Paces.connected {i t : ℕ} {req : ConnReq} (h : w.Paces) (hlife : w.Lifecycle)
    (hest : w.Established) (hi : w.connects[i]? = some (t, req)) (hst : w.state = .connecting)
    (hopen : w.transports[t]? ≠ some .closed) :
    (transportStart t { w with
      connects := w.connects.eraseIdx i, transport := some t, state := .connected }).Paces := by
  have hconnecting := hest.connecting hlife hi hst hopen
  have hlen : t < w.transports.length := (List.getElem?_eq_some_iff.1 hconnecting).1
  have hnone : w.transport = none := hest.unset (.inr hst)
  have hnew : ∀ res, ownResponse t w.trace ≠ some res := by
    -- a transport with a response has been working, and this one is still connecting
    intro res hres
    obtain ⟨s, hs, hwas⟩ := h.past t res hres
    rw [hconnecting] at hs
    obtain rfl := Option.some.inj hs
    exact absurd hwas (by decide)
  rw [transportStart]
  simp only [if_pos hconnecting]
  refine ⟨?_, ?_, ?_, h.beats, h.waits, h.running, ?_, h.sent⟩
  · intro t' ht'
    obtain rfl : t = t' := Option.some.inj ht'
    exact decide_eq_true (List.getElem?_set_self hlen)
  · intro t' res hres
    by_cases htt : t = t'
    · subst htt
      exact absurd hres (hnew res)
    · rw [List.getElem?_set_ne htt]
      exact h.past t' res hres
  · intro t' res ht' hres
    obtain rfl : t = t' := Option.some.inj ht'
    exact absurd hres (hnew res)
  · intro hactive
    obtain ⟨t', -, ht', -⟩ := h.armed hactive
    rw [hnone] at ht'
    exact absurd ht' (by simp)

theorem Link.paces (h : Link cfg w w') (hlife : w.Lifecycle) (hest : w.Established) (hw : w.Paces) :
    w'.Paces := by
  cases h with
  | move hm => exact hm.paces hw hest
  | transportNew => exact hw.append (by decide) w.connects
  | launch req =>
    exact World.Paces.aside (hw.append (by decide) (w.connects ++ [(w.transports.length, req)]))
      (by simp) (by simp)
  | refused i t req hi hst =>
    apply hw.transports rfl
    · intro t' ht'
      rw [hest.unset (.inr hst)] at ht'
      exact absurd ht' (by simp)
    · exact fun t' res hres => closeSocket_keeps (.inr rfl) t (hw.past t' res hres)
  | connected i t req hi hst hopen => exact hw.connected hlife hest hi hst hopen
  | greet t data _ _ =>
    refine World.Paces.note (hw.of_eq rfl rfl rfl rfl rfl) (by simp) ?_
    intro write heq hcb
    obtain rfl := Event.wrote.inj heq
    exact absurd hcb (by simp)
  | connectCb | acked =>
    exact World.Paces.aside (hw.of_eq rfl rfl rfl rfl rfl) (by simp) (by simp)
  | _ => exact hw.of_eq rfl rfl rfl rfl rfl

end Moves

/-! ## Runs -/

theorem paces_init (reqId : ℕ) (files : ProtoFiles) : (World.init reqId files).Paces where
  live _ h := absurd h (by simp [World.init])
  past _ _ h := absurd h (by simp [World.init, ownResponse])
  latest _ _ h := absurd h (by simp [World.init])
  beats timer h := by
    obtain rfl : (⟨false, 0⟩ : Timer) = timer := Option.some.inj h
    rfl
  waits timer h := by
    obtain rfl : (⟨false, 0⟩ : Timer) = timer := Option.some.inj h
    rfl
  running h := absurd h (by simp [World.init])
  armed h := absurd h (by simp [World.init])
  sent _ _ _ _ h := absurd h (by simp [World.init])

theorem kept_paces {cfg : Config} :
    Kept cfg fun w => (w.Lifecycle ∧ w.Established) ∧ w.Paces := by
  apply kept_established.and paces_init
  · exact fun w w' hest hw hlink => hlink.paces hest.1 hest.2 hw
  · exact fun w supply worker user hw => hw.of_eq rfl rfl rfl rfl rfl
  · intro w t _ hw _ _
    exact World.Paces.aside (hw.of_eq rfl rfl rfl rfl rfl) (by simp) (by simp)
  · exact fun w hw => hw.of_eq rfl rfl rfl rfl rfl
  · exact fun w _ hw _ => hw.of_eq rfl rfl rfl rfl rfl

/-- **Every connection beats as its own response asked**, if the responses are steady. -/
theorem paced_of_steady {cfg : Config} {w : World} (h : Reachable cfg w) (hsteady : Steady w.trace) :
    w.Paced := by
  have hw : w.Paces := (kept_paces.reach h).2
  have hfits := hsteady.fits
  refine ⟨hw.sent hsteady, ?_, ?_, ?_⟩
  · intro hactive
    obtain ⟨t, res, ht, hres⟩ := hw.armed hactive
    have hpace := hw.latest t res ht hres hsteady
    have hpos := hw.running (.inr hactive)
    exact ⟨t, res, ht, hres, by omega⟩
  · intro t res ht hres hpos
    have hpace : pace w.trace = heartbeatAsked res := by
      rw [hw.latest t res ht hres hsteady]
      exact max_eq_left hpos.le
    rw [hpace] at hfits
    refine ⟨?_, ?_⟩
    · intro timer htimer
      rw [hw.beats timer htimer, hpace]
      exact heartbeatPeriod_eq hpos.le hfits
    · intro timer htimer
      rw [hw.waits timer htimer, hpace]
      exact timeoutPeriod_eq hpos.le hfits
  · intro t res ht hres hneg
    have hpace : ¬ 0 < pace w.trace := by
      rw [hw.latest t res ht hres hsteady, max_eq_right hneg]
      decide
    refine ⟨?_, ?_⟩
    · exact Bool.eq_false_iff.2 fun hactive => hpace (hw.running (.inl hactive))
    · exact Bool.eq_false_iff.2 fun hactive => hpace (hw.running (.inr hactive))

/-- The server asks for a heartbeat every three seconds, and gets one. -/
theorem paced_of_steady_beatStart :
    ∃ w, runSteps (beatConfig true) (beatStart ++ [([], .heartbeatTimer)]) plainInit = some w ∧
      w.timeoutTimer = some ⟨true, 6000⟩ ∧ w.Paced := by
  have hrun : ∃ w, runSteps (beatConfig true) (beatStart ++ [([], .heartbeatTimer)]) plainInit =
      some w ∧ w.timeoutTimer = some ⟨true, 6000⟩ ∧ Steady w.trace :=
    ⟨_, rfl, rfl, of_decide_eq_true rfl⟩
  obtain ⟨w, hrun, htimer, hsteady⟩ := hrun
  exact ⟨w, hrun, htimer, paced_of_steady (reachable_of_run hrun) hsteady⟩

/-- The connection is lost and the response on the next one is `{"code":200}`. -/
def beatLost : List (List Bool × Label) :=
  beatStart ++ [([], .tcpRead 0 [] .error), ([], .reconnectTimer), ([], .tcpConnect 0 true),
    ([], .writeDone 0 true), ([], .tcpRead 1 [] (.bytes ([1, 0, 0, 12] ++ okResponse))),
    ([], .writeDone 0 true), ([], .heartbeatTimer)]

set_option maxRecDepth 2048 in
/-- **A heartbeat that nobody asked for.** It is sent at the pace of the first connection. -/
theorem paced_beatLost :
    ∃ w older, runSteps (beatConfig true) beatLost plainInit = some w ∧
      w.trace = .wrote ⟨.heartbeatReq, 1, some [3, 0, 0, 0]⟩ :: older ∧
      ownResponse 1 older = some (.obj [("code", .int 200)]) ∧ ¬ w.Paced := by
  have hrun : ∃ w older, runSteps (beatConfig true) beatLost plainInit = some w ∧
      w.trace = .wrote ⟨.heartbeatReq, 1, some [3, 0, 0, 0]⟩ :: older ∧
      ownResponse 1 older = some (.obj [("code", .int 200)]) := ⟨_, _, rfl, rfl, rfl⟩
  obtain ⟨w, older, hrun, htrace, hres⟩ := hrun
  refine ⟨w, older, hrun, htrace, hres, fun hpaced => ?_⟩
  obtain ⟨res, hres', hpos⟩ := hpaced.sent [] _ older htrace rfl
  obtain rfl := Option.some.inj (hres.symm.trans hres')
  exact absurd hpos (by decide)

end Libpomelo
