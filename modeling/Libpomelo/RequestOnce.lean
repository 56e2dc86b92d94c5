import Libpomelo.Turns

/-!
# A request is called back at most once

`pc_request` hands the request to the loop through an async; from there it goes into
`client->requests`, and five places call it back. The accounting is one inequality for
each request (`World.Ledger`): what is still owed to it (its async and its entry in the
map) and the calls already made add up to at most one.

Every move keeps it except for two, both in `pc__on_request`. When the transport is dead
the callback runs and the entry stays in the map; when the write failed and the entry is
gone already, the callback runs all the same. So the accounting holds in every run in
which each completion finds its transport working and a failed one finds its request in
the map (`requestCalls_le_one`), and it breaks in the shortest run that stops a client
with a request under way (`two_requestCalls`).
-/

namespace Libpomelo

/-- The event is a call of the callback of this request. -/
def Event.callsRequest (serial : ℕ) : Event → Bool
  | .requestCb s _ => s = serial
  | _ => false

/-- How often the callback of a request ran. -/
def requestCalls (trace : List Event) (serial : ℕ) : ℕ :=
  trace.countP (Event.callsRequest serial)

/-- What is still owed to a request: its async, and its entry in the map. -/
def World.owed (w : World) (serial : ℕ) : ℕ :=
  w.asyncs.countP (·.serial = serial) + w.requests.countP (·.2.serial = serial)

/-- **The accounting.** A request accepted so far is owed a call or was called back, and
not both; a request to come is neither. -/
def World.Ledger (w : World) : Prop :=
  ∀ serial, w.owed serial + requestCalls w.trace serial ≤ if serial < w.nextSerial then 1 else 0

/-- The completion of a request's write finds the transport of the request working; if
the write failed, it finds the request in the map. Both are looked up before
`pc__on_request` runs. -/
def Event.InTime : Event → Prop
  | .writeDone ⟨.request _, _, _⟩ status working listed =>
    working = true ∧ (status = -1 → listed = true)
  | _ => True

instance : DecidablePred Event.InTime := by
  intro e
  unfold Event.InTime
  split <;> infer_instance

/-! ## The accounting of a move -/

section Ledger

variable {cfg : Config} {begins : Bool} {w w' : World}

theorem requestCalls_cons (e : Event) (trace : List Event) (serial : ℕ) :
    requestCalls (e :: trace) serial =
      requestCalls trace serial + if e.callsRequest serial then 1 else 0 :=
  List.countP_cons ..

/-- What left the list at one place was counted once. -/
theorem countP_eraseIdx_add {α : Type} (p : α → Bool) {l : List α} {i : ℕ} {x : α}
    (h : l[i]? = some x) : (l.eraseIdx i).countP p + (if p x then 1 else 0) = l.countP p := by
  obtain ⟨hi, hx⟩ := List.getElem?_eq_some_iff.1 h
  have hperm : (l[i] :: l.eraseIdx i).Perm l := List.getElem_cons_eraseIdx_perm hi
  rw [← hperm.countP_eq p, hx, List.countP_cons]

/-- Whoever owes no more and has not called may go on. -/
theorem World.Ledger.mono (h : w.Ledger) (hnext : w.nextSerial ≤ w'.nextSerial)
    (howed : ∀ serial, w'.owed serial + requestCalls w'.trace serial ≤
      w.owed serial + requestCalls w.trace serial) : w'.Ledger := by
  intro serial
  refine (howed serial).trans ((h serial).trans ?_)
  by_cases hlt : serial < w.nextSerial
  · rw [if_pos hlt, if_pos (hlt.trans_le hnext)]
  · rw [if_neg hlt]
    exact Nat.zero_le _

theorem World.Ledger.note {e : Event} (h : w.Ledger) (he : ∀ serial, e.callsRequest serial = false) :
    (w.note e).Ledger := by
  refine h.mono le_rfl ?_
  intro serial
  have hcalls : requestCalls (w.note e).trace serial = requestCalls w.trace serial := by
    rw [World.note, requestCalls_cons, he serial]
    rfl
  rw [hcalls]
  exact le_rfl

theorem World.Ledger.accept {req : TcpReq} (h : w.Ledger) (hserial : req.serial = w.nextSerial) :
    ({ w with asyncs := w.asyncs ++ [req], nextSerial := w.nextSerial + 1 }.note
      (.accepted req)).Ledger := by
  intro serial
  have hold := h serial
  change (w.asyncs ++ [req]).countP (·.serial = serial) + w.requests.countP (·.2.serial = serial) +
    requestCalls (.accepted req :: w.trace) serial ≤ if serial < w.nextSerial + 1 then 1 else 0
  rw [World.owed] at hold
  rw [requestCalls_cons, List.countP_append, List.countP_singleton]
  simp only [Event.callsRequest, decide_eq_true_eq, Bool.false_eq_true, if_false]
  -- the new request is the one whose serial nobody had before
  by_cases hs : req.serial = serial
  · rw [if_neg (by omega)] at hold
    rw [if_pos hs, if_pos (by omega)]
    omega
  · rw [if_neg hs]
    split at hold
    · rw [if_pos (by omega)]
      exact hold
    · rw [if_neg (by omega)]
      exact hold

theorem World.Ledger.popAsync (h : w.Ledger) (i : ℕ) :
    { w with asyncs := w.asyncs.eraseIdx i }.Ledger := by
  refine h.mono le_rfl ?_
  intro serial
  have hle := (List.eraseIdx_sublist w.asyncs i).countP_le (p := fun r => decide (r.serial = serial))
  simp only [World.owed]
  omega

theorem World.Ledger.asyncRequestCb {i : ℕ} {req : TcpReq} (h : w.Ledger)
    (hi : w.asyncs[i]? = some req) (status : ℤ) :
    ({ w with asyncs := w.asyncs.eraseIdx i }.note (.requestCb req.serial status)).Ledger := by
  refine h.mono le_rfl ?_
  intro serial
  have hmove := countP_eraseIdx_add (fun r => decide (r.serial = serial)) hi
  simp only [World.note, World.owed, requestCalls_cons, Event.callsRequest, decide_eq_true_eq]
    at hmove ⊢
  omega

theorem World.Ledger.enlist {i : ℕ} {req : TcpReq} (h : w.Ledger) (hi : w.asyncs[i]? = some req) :
    { w with asyncs := w.asyncs.eraseIdx i
             requests := w.requests ++ [(req.id, req)] }.Ledger := by
  refine h.mono le_rfl ?_
  intro serial
  have hmove := countP_eraseIdx_add (fun r => decide (r.serial = serial)) hi
  simp only [World.owed, List.countP_append, List.countP_singleton]
  omega

theorem World.Ledger.unlink (h : w.Ledger) (id : ℕ) : (requestsDel id w).Ledger := by
  refine h.mono le_rfl ?_
  intro serial
  have hsub : (w.requests.eraseP fun kv => kv.1 = id).Sublist w.requests := List.eraseP_sublist
  have hle := hsub.countP_le (p := fun kv => decide (kv.2.serial = serial))
  simp only [World.owed, requestsDel]
  omega

theorem World.Ledger.release {id : ℕ} {req : TcpReq} {before after : List (ℕ × TcpReq)}
    (h : w.Ledger) (hsplit : w.requests = before ++ (id, req) :: after) (status : ℤ) :
    ({ w with requests := before ++ after }.note (.requestCb req.serial status)).Ledger := by
  refine h.mono le_rfl ?_
  intro serial
  have hcount : w.requests.countP (fun kv => decide (kv.2.serial = serial)) =
      (before ++ after).countP (fun kv => decide (kv.2.serial = serial)) +
        if req.serial = serial then 1 else 0 := by
    rw [hsplit, List.countP_append, List.countP_cons, List.countP_append]
    simp only [decide_eq_true_eq]
    omega
  simp only [World.note, World.owed, requestCalls_cons, Event.callsRequest, hcount,
    decide_eq_true_eq]
  omega

/-- **A move keeps the accounts**, unless it completes a write out of time. -/
theorem Move.ledger (h : Move cfg begins w w') (hw : w.Ledger) (htime : ∀ e ∈ w'.trace, e.InTime) :
    w'.Ledger := by
  cases h with
  | inert w' hin _ =>
    rw [hin.eq]
    exact hw
  | shook w' _ _ hin _ _ _ =>
    rw [hin.eq]
    exact World.Ledger.note hw fun _ => rfl
  | note e hq =>
    apply hw.note
    intro serial
    cases e with
    | requestCb => exact absurd hq id
    | _ => rfl
  | accept req hserial _ _ _ _ => exact hw.accept hserial
  | queueWrite => exact World.Ledger.note hw fun _ => rfl
  | popAsync i => exact hw.popAsync i
  | asyncRequestCb i req status hi _ => exact hw.asyncRequestCb hi status
  | enlist i t data req hi _ _ _ _ => exact hw.enlist hi
  | unlink id => exact hw.unlink id
  | release id req before after hsplit => exact hw.release hsplit (-1)
  | respond t raw rest req before after hsplit _ _ _ => exact hw.release hsplit 0
  | orphanCb write req status listed hcb hdone =>
    -- the completion was not in time
    obtain ⟨cb, t, data⟩ := write
    obtain rfl : cb = .request req := hcb
    exact absurd (htime _ (List.mem_cons_of_mem _ hdone)).1 (by simp)
  | lateCb write req hcb hdone =>
    obtain ⟨cb, t, data⟩ := write
    obtain rfl : cb = .request req := hcb
    exact absurd ((htime _ (List.mem_cons_of_mem _ hdone)).2 rfl) (by simp)
  | asyncNotifyCb i => exact (hw.popAsync i).note fun _ => rfl
  | sendNotify i => exact World.Ledger.note (hw.popAsync i) fun _ => rfl
  | notifyDone | beginReset | reset | close | disconnect | closeHandled =>
    exact World.Ledger.note hw fun _ => rfl
  | _ => exact hw

theorem Link.ledger (h : Link cfg w w') (hw : w.Ledger) (htime : ∀ e ∈ w'.trace, e.InTime) :
    w'.Ledger := by
  cases h with
  | move hm => exact hm.ledger hw htime
  | launch | greet | connectCb | acked => exact World.Ledger.note hw fun _ => rfl
  | _ => exact hw

end Ledger

/-! ## Runs -/

/-- The accounts are kept right as long as no completion comes late. -/
theorem kept_ledger {cfg : Config} : Kept cfg fun w => (∀ e ∈ w.trace, e.InTime) → w.Ledger where
  init _ _ _ _ := Nat.zero_le _
  link _ _ hw hlink htime :=
    hlink.ledger (hw fun e he => htime e (hlink.trace_suffix.subset he)) htime
  threads _ _ _ _ hw := hw
  start _ _ hw _ _ htime :=
    World.Ledger.note (hw fun e he => htime e (List.mem_cons_of_mem _ he)) fun _ => rfl
  finish _ hw := hw
  loopEnd _ hw _ := hw

/-- **At most one call.** In every run in which no completion of a request's write comes
late, the callback of each request runs at most once. -/
theorem requestCalls_le_one {cfg : Config} {w : World} (h : Reachable cfg w)
    (htime : ∀ e ∈ w.trace, e.InTime) (serial : ℕ) : requestCalls w.trace serial ≤ 1 := by
  have hle := kept_ledger.reach h htime serial
  have hone : (if serial < w.nextSerial then 1 else 0) ≤ 1 := by split <;> decide
  exact (Nat.le_add_left _ _).trans (hle.trans hone)

/-- A request that is written and answered. -/
def answeredRun : List (List Bool × Label) :=
  plainStart ++ [([], .call (.request [97] (some (.obj [])))), ([], .asyncWrite 0),
    ([], .writeDone 0 true), ([], .tcpRead 0 [] (.bytes [4, 0, 0, 4, 4, 1, 123, 125]))]

/-- It is called back once. -/
theorem requestCalls_answeredRun :
    ∃ w, runSteps (plainConfig false) answeredRun plainInit = some w ∧
      (∀ e ∈ w.trace, e.InTime) ∧ requestCalls w.trace 0 = 1 ∧ requestCalls w.trace 0 ≤ 1 := by
  have honce : ∃ w, runSteps (plainConfig false) answeredRun plainInit = some w ∧
      (∀ e ∈ w.trace, e.InTime) ∧ requestCalls w.trace 0 = 1 := ⟨_, rfl, by decide +kernel, rfl⟩
  obtain ⟨w, hrun, htime, hone⟩ := honce
  have hreach := reachable_of_run hrun
  exact ⟨w, hrun, htime, hone, requestCalls_le_one hreach htime 0⟩

/-- A request under way when the client is stopped: its write completes with `-1` on a
dead transport, and the client is destroyed. -/
def stoppedRun : List (List Bool × Label) :=
  plainStart ++ [([], .call (.request [97] (some (.obj [])))), ([], .asyncWrite 0),
    ([], .call .stop), ([], .writeDone 0 false), ([], .loopEnd), ([], .workerTail),
    ([], .workerTail), ([], .join), ([], .destroy), ([], .destroy), ([], .destroy)]

/-- It is called back twice, by the completion and by `pc_map_clear`. -/
theorem two_requestCalls :
    ∃ w, runSteps (plainConfig false) stoppedRun plainInit = some w ∧
      Reachable (plainConfig false) w ∧ ¬ requestCalls w.trace 0 ≤ 1 := by
  have htwo : ∃ w, runSteps (plainConfig false) stoppedRun plainInit = some w ∧
      requestCalls w.trace 0 = 2 := ⟨_, rfl, rfl⟩
  obtain ⟨w, hrun, htwo⟩ := htwo
  refine ⟨w, hrun, reachable_of_run hrun, ?_⟩
  rw [htwo]
  decide

end Libpomelo
