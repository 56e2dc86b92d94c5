import Libpomelo.Lifecycle
import Libpomelo.RequestOnce

/-!
# What status a callback gets

A request callback with status `0` ought to mean that the server answered: a message of
type `RESPONSE` with the id of the request is being handled, and it came in on the
connection the request was written to. A notify callback with status `0` ought to mean
that its write succeeded (`Event.Justified`).

Two places break this. `pc__request` and `pc__notify` hand on the status of the async,
which is `0`, when they find the transport dead; and `pc__data` takes any message with
an id for a response. In every run that avoids both, every callback is justified
(`callbacks_justified`). What has to be carried along is where each entry of the request
map was written: on the transport that works, or whose read handler runs (`World.Filed`).
-/

namespace Libpomelo

/-- The transport of the last read handler that was entered. -/
def lastRead (trace : List Event) : Option ℕ :=
  trace.findSome? fun e =>
    match e with
    | .read t => some t
    | _ => none

/-- What must have happened before a callback runs with its status; `older` is
everything that happened so far. -/
def Event.Justified (older : List Event) : Event → Prop
  | .requestCb serial status =>
    status = -1 ∨ status = 0 ∧ ∃ req raw pending t data rest,
      req.serial = serial ∧ .accepted req ∈ older ∧
      older = .message raw pending :: rest ∧ raw.type = .response ∧ raw.id = req.id ∧
      .wrote ⟨.request req, t, data⟩ ∈ older ∧ lastRead older = some t
  | .notifyCb serial status =>
    status = -1 ∨ status = 0 ∧ ∃ write req working listed,
      write.cb = .notify req ∧ req.serial = serial ∧
      .writeDone write 0 working listed ∈ older
  | _ => True

/-- Every callback of the run was justified when it ran. -/
def Justified (trace : List Event) : Prop :=
  ∀ newer e older, trace = newer ++ e :: older → e.Justified older

/-- An async fires while its transport works, and a message of type `REQUEST` does not
carry the id of a request in the map. -/
def Event.Straight : Event → Prop
  | .asyncFired _ working => working = true
  | .message raw pending => raw.type = .request → pending = false
  | _ => True

instance : DecidablePred Event.Straight := by
  intro e
  unfold Event.Straight
  split <;> infer_instance

theorem justified_cons {e : Event} {trace : List Event} (h : Justified trace)
    (he : e.Justified trace) : Justified (e :: trace) := by
  intro newer e' older hsplit
  cases newer with
  | nil =>
    obtain ⟨rfl, rfl⟩ := List.cons.inj hsplit
    exact he
  | cons e'' newer => exact h newer e' older (List.cons.inj hsplit).2

/-! ## Where requests are filed -/

/-- **The map files what was written.** Requests on their way were accepted; an entry of
the map stands under its own id, and was written on the transport that works or is being
read. -/
structure World.Filed (w : World) : Prop where
  /-- asyncs come from accepted calls -/
  accepted : ∀ req ∈ w.asyncs, .accepted req ∈ w.trace
  /-- an entry and its id -/
  entry : ∀ id req, (id, req) ∈ w.requests → req.id = id ∧ .accepted req ∈ w.trace
  /-- where an entry was written -/
  written : ∀ id req, (id, req) ∈ w.requests → ∀ t, w.working t = true ∨ w.reading = some t →
    ∃ data, .wrote ⟨.request req, t, data⟩ ∈ w.trace
  /-- the running read handler was the last one entered -/
  last : ∀ t, w.reading = some t → lastRead w.trace = some t

section Moves

variable {cfg : Config} {begins : Bool} {w w' : World}

/-- Fewer requests, fewer working transports and a longer history. -/
theorem World.Filed.mono (h : w.Filed) (hasyncs : w'.asyncs ⊆ w.asyncs)
    (hrequests : w'.requests ⊆ w.requests) (htrace : w.trace ⊆ w'.trace)
    (hwork : ∀ t, w'.working t = true → w.working t = true) (hread : w'.reading = w.reading)
    (hlast : lastRead w'.trace = lastRead w.trace) : w'.Filed := by
  refine ⟨?_, ?_, ?_, ?_⟩
  · intro req hreq
    exact htrace (h.accepted req (hasyncs hreq))
  · intro id req hreq
    obtain ⟨hid, hacc⟩ := h.entry id req (hrequests hreq)
    exact ⟨hid, htrace hacc⟩
  · intro id req hreq t ht
    rw [hread] at ht
    obtain ⟨data, hwrote⟩ := h.written id req (hrequests hreq) t (ht.imp_left (hwork t))
    exact ⟨data, htrace hwrote⟩
  · intro t ht
    rw [hread] at ht
    rw [hlast]
    exact h.last t ht

/-- Recording an event other than a read. -/
theorem World.Filed.note {e : Event} (h : w.Filed) (he : ∀ t, e ≠ .read t) : (w.note e).Filed := by
  refine h.mono (List.Subset.refl _) (List.Subset.refl _) (List.subset_cons_self _ _)
    (fun _ => id) rfl ?_
  cases e with
  | read t => exact absurd rfl (he t)
  | _ => rfl

/-- The current transport is closed. -/
theorem World.Filed.dropTransport (h : w.Filed) (hlife : w.Lifecycle) : (dropTransport w).Filed := by
  refine h.mono (List.Subset.refl _) (List.Subset.refl _) (List.Subset.refl _) ?_ rfl rfl
  intro t hwork
  rw [hlife.working_dropTransport t] at hwork
  exact absurd hwork (by decide)

theorem World.Filed.sub_requests {requests : List (ℕ × TcpReq)} (h : w.Filed)
    (hsub : requests ⊆ w.requests) : { w with requests := requests }.Filed :=
  h.mono (List.Subset.refl _) hsub (List.Subset.refl _) (fun _ => id) rfl rfl

theorem World.Filed.sub_asyncs {asyncs : List TcpReq} (h : w.Filed) (hsub : asyncs ⊆ w.asyncs) :
    { w with asyncs := asyncs }.Filed :=
  h.mono hsub (List.Subset.refl _) (List.Subset.refl _) (fun _ => id) rfl rfl

/-- The same fields count as before. -/
theorem World.Filed.of_eq (h : w.Filed) (hasyncs : w'.asyncs = w.asyncs)
    (hrequests : w'.requests = w.requests) (htrace : w'.trace = w.trace)
    (hwork : w'.working = w.working) (hread : w'.reading = w.reading) : w'.Filed := by
  refine h.mono ?_ ?_ ?_ ?_ hread ?_
  · rw [hasyncs]
    exact List.Subset.refl _
  · rw [hrequests]
    exact List.Subset.refl _
  · rw [htrace]
    exact List.Subset.refl _
  · rw [hwork]
    exact fun _ => id
  · rw [htrace]

theorem World.Filed.accept {req : TcpReq} (h : w.Filed) :
    ({ w with asyncs := w.asyncs ++ [req], nextSerial := w.nextSerial + 1 }.note
      (.accepted req)).Filed := by
  have hnote := h.note (e := .accepted req) (by simp)
  refine ⟨?_, hnote.entry, hnote.written, hnote.last⟩
  intro req' hreq'
  rcases List.mem_append.1 hreq' with hold | hnew
  · exact hnote.accepted req' hold
  · rw [List.mem_singleton.1 hnew]
    exact List.mem_cons_self ..

/-- A request goes into the map after its write was queued on the current transport. -/
theorem World.Filed.enlist {i t : ℕ} {data : Option Bytes} {req : TcpReq} (h : w.Filed)
    (hlife : w.Lifecycle) (hi : w.asyncs[i]? = some req) (ht : w.transport = some t)
    (hread : w.reading = none) (hwrote : .wrote ⟨.request req, t, data⟩ ∈ w.trace) :
    { w with asyncs := w.asyncs.eraseIdx i
             requests := w.requests ++ [(req.id, req)] }.Filed := by
  have hpop : { w with asyncs := w.asyncs.eraseIdx i }.Filed :=
    h.sub_asyncs (List.eraseIdx_sublist _ _).subset
  refine ⟨hpop.accepted, ?_, ?_, hpop.last⟩
  · intro id req' hmem
    rcases List.mem_append.1 hmem with hold | hnew
    · exact h.entry id req' hold
    · obtain ⟨rfl, rfl⟩ := Prod.mk.inj (List.mem_singleton.1 hnew)
      exact ⟨rfl, h.accepted req' (List.mem_of_getElem? hi)⟩
  · intro id req' hmem t' ht'
    rcases List.mem_append.1 hmem with hold | hnew
    · exact h.written id req' hold t' ht'
    · obtain ⟨rfl, rfl⟩ := Prod.mk.inj (List.mem_singleton.1 hnew)
      -- only the current transport works, and that is where the write went
      rcases ht' with hwork | hreading
      · have hcur := hlife.current t' hwork
        rw [ht] at hcur
        obtain rfl := Option.some.inj hcur
        exact ⟨data, hwrote⟩
      · have hnone : w.reading = some t' := hreading
        rw [hread] at hnone
        exact absurd hnone (by simp)

theorem sub_of_split {before after requests : List (ℕ × TcpReq)} {kv : ℕ × TcpReq}
    (h : requests = before ++ kv :: after) : before ++ after ⊆ requests := by
  rw [h]
  intro x hx
  rcases List.mem_append.1 hx with hx | hx
  · exact List.mem_append_left _ hx
  · exact List.mem_append_right _ (List.mem_cons_of_mem _ hx)

theorem Move.filed (h : Move cfg begins w w') (hlife : w.Lifecycle) (hw : w.Filed) : w'.Filed := by
  cases h with
  | inert w' hin _ =>
    rw [hin.eq]
    exact hw.of_eq rfl rfl rfl rfl rfl
  | shook w' _ _ hin _ _ _ =>
    rw [hin.eq]
    exact World.Filed.note (hw.of_eq rfl rfl rfl rfl rfl) (by simp)
  | note e hq =>
    apply hw.note
    rintro t rfl
    exact hq
  | accept req _ _ _ _ _ => exact hw.accept
  | queueWrite cb t data _ _ _ =>
    refine World.Filed.note ?_ (by simp)
    exact hw.of_eq rfl rfl rfl rfl rfl
  | popAsync i => exact hw.sub_asyncs (List.eraseIdx_sublist _ _).subset
  | asyncRequestCb i req status _ _ =>
    exact (hw.sub_asyncs (List.eraseIdx_sublist _ _).subset).note (by simp)
  | enlist i t data req hi _ ht hread hwrote => exact hw.enlist hlife hi ht hread hwrote
  | unlink id => exact hw.sub_requests List.eraseP_subset
  | release id req before after hsplit => exact (hw.sub_requests (sub_of_split hsplit)).note (by simp)
  | respond t raw rest req before after hsplit _ _ _ =>
    exact (hw.sub_requests (sub_of_split hsplit)).note (by simp)
  | orphanCb => exact hw.note (by simp)
  | lateCb write req _ _ => exact (hw.sub_requests List.eraseP_subset).note (by simp)
  | asyncNotifyCb => exact (hw.sub_asyncs (List.eraseIdx_sublist _ _).subset).note (by simp)
  | sendNotify i =>
    refine World.Filed.note ?_ (by simp)
    exact (hw.sub_asyncs (List.eraseIdx_sublist _ _).subset).of_eq rfl rfl rfl rfl rfl
  | notifyDone i write req done working listed =>
    have hdone : ({ w with writes := w.writes.eraseIdx i }.note
        (.writeDone write done working listed)).Filed :=
      World.Filed.note (hw.of_eq rfl rfl rfl rfl rfl) (by simp)
    exact hdone.note (by simp)
  | beginReset _ _ _ _ =>
    have hstop := (hw.dropTransport hlife).note (e := .stop w.state false) (by simp)
    exact hstop.of_eq rfl rfl rfl rfl rfl
  | reset =>
    refine World.Filed.note ?_ (by simp)
    exact hw.of_eq rfl rfl rfl rfl rfl
  | close _ _ _ =>
    have hstop := (hw.dropTransport hlife).note (e := .stop w.state w.reconnecting) (by simp)
    have hclosed := hstop.note (e := .closed) (by simp)
    exact hclosed.of_eq rfl rfl rfl rfl rfl
  | disconnect =>
    refine World.Filed.note ?_ (by simp)
    exact hw.of_eq rfl rfl rfl rfl rfl
  | closeHandled => exact hw.note (by simp)
  | _ => exact hw.of_eq rfl rfl rfl rfl rfl

theorem Link.filed (h : Link cfg w w') (hlife : w.Lifecycle) (hw : w.Filed) : w'.Filed := by
  cases h with
  | move hm => exact hm.filed hlife hw
  | transportNew => exact hw.of_eq rfl rfl rfl (working_congr (getElem?_concat_ne (by decide))) rfl
  | launch req =>
    refine World.Filed.note (hw.of_eq rfl rfl rfl ?_ rfl) (by simp)
    exact working_congr (getElem?_concat_ne (by decide))
  | refused i t req _ _ =>
    refine hw.mono (List.Subset.refl _) (List.Subset.refl _) (List.Subset.refl _) ?_ rfl rfl
    intro t' hwork
    simp only [World.working, transportDestroy, decide_eq_true_eq, working_closeSocket] at hwork
    exact decide_eq_true hwork.2
  | connected i t req _ hst _ =>
    -- the map is empty when a connection starts to work
    have hnone : ∀ kv, kv ∉ w.requests := by
      rw [hlife.fresh (.inr hst)]
      exact fun _ => List.not_mem_nil
    refine ⟨hw.accepted, ?_, ?_, hw.last⟩
    · intro id req hreq
      exact absurd hreq (hnone _)
    · intro id req hreq
      exact absurd hreq (hnone _)
  | connectCb => exact hw.note (by simp)
  | greet | acked =>
    refine World.Filed.note ?_ (by simp)
    exact hw.of_eq rfl rfl rfl rfl rfl
  | _ => exact hw.of_eq rfl rfl rfl rfl rfl

/-- **Every move is justified**, unless an async fired late or a message was taken for a
response that is none. -/
theorem Move.justified (h : Move cfg begins w w') (hw : w.Filed) (hstraight : ∀ e ∈ w'.trace, e.Straight)
    (hj : Justified w.trace) : Justified w'.trace := by
  cases h with
  | inert w' hin _ =>
    rw [hin.eq]
    exact hj
  | shook w' _ _ hin _ _ _ =>
    rw [hin.eq]
    exact justified_cons hj trivial
  | note e hq =>
    apply justified_cons hj
    cases e with
    | requestCb | notifyCb => exact absurd hq id
    | _ => trivial
  | asyncRequestCb i req status _ hstatus =>
    apply justified_cons hj
    rcases hstatus with rfl | ⟨-, hfired⟩
    · exact .inl rfl
    · exact absurd (hstraight _ (List.mem_cons_of_mem _ hfired)) (by simp [Event.Straight])
  | respond t raw rest req before after hsplit htrace hid hread =>
    refine justified_cons hj (.inr ⟨rfl, ?_⟩)
    have hmem : (raw.id, req) ∈ w.requests := by
      rw [hsplit]
      exact List.mem_append_right _ (List.mem_cons_self ..)
    obtain ⟨hreqid, haccepted⟩ := hw.entry _ _ hmem
    obtain ⟨data, hwrote⟩ := hw.written _ _ hmem t (.inr hread)
    have htype : raw.type = .response := by
      have hmsg : Event.message raw true ∈ w.trace := by
        rw [htrace]
        exact List.mem_cons_self ..
      have hnot : raw.type ≠ .request := by
        intro hreq
        exact absurd (hstraight _ (List.mem_cons_of_mem _ hmsg) hreq) (by decide)
      simpa [MsgType.hasId, hnot] using hid
    exact ⟨req, raw, true, t, data, rest, rfl, haccepted, htrace, htype, hreqid.symm, hwrote,
      hw.last t hread⟩
  | asyncNotifyCb i req status _ hstatus =>
    apply justified_cons hj
    rcases hstatus with rfl | ⟨-, hfired⟩
    · exact .inl rfl
    · exact absurd (hstraight _ (List.mem_cons_of_mem _ hfired)) (by simp [Event.Straight])
  | notifyDone i write req done working listed status _ hcb hstatus =>
    have hdone : Justified (.writeDone write done working listed :: w.trace) :=
      justified_cons hj trivial
    apply justified_cons hdone
    rcases hstatus with rfl | ⟨rfl, rfl⟩
    · exact .inl rfl
    · exact .inr ⟨rfl, write, req, working, listed, hcb, rfl, List.mem_cons_self ..⟩
  | release | orphanCb | lateCb => exact justified_cons hj (.inl rfl)
  | accept | queueWrite | sendNotify | beginReset | reset | disconnect | closeHandled =>
    exact justified_cons hj trivial
  | close => exact justified_cons (justified_cons hj trivial) trivial
  | _ => exact hj

theorem Link.justified (h : Link cfg w w') (hw : w.Filed) (hstraight : ∀ e ∈ w'.trace, e.Straight)
    (hj : Justified w.trace) : Justified w'.trace := by
  cases h with
  | move hm => exact hm.justified hw hstraight hj
  | launch | greet | connectCb | acked => exact justified_cons hj trivial
  | _ => exact hj

end Moves

/-! ## Runs -/

/-- What is carried along a run. -/
def World.Accountable (w : World) : Prop :=
  w.Lifecycle ∧ w.Filed ∧ ((∀ e ∈ w.trace, e.Straight) → Justified w.trace)

theorem World.Filed.startRead {w : World} {t : ℕ} (h : w.Filed) (hwork : w.working t = true) :
    ({ w with reading := some t }.note (.read t)).Filed := by
  refine ⟨?_, ?_, ?_, ?_⟩
  · intro req hreq
    exact List.mem_cons_of_mem _ (h.accepted req hreq)
  · intro id req hreq
    obtain ⟨hid, hacc⟩ := h.entry id req hreq
    exact ⟨hid, List.mem_cons_of_mem _ hacc⟩
  · intro id req hreq t' ht'
    have hwork' : w.working t' = true := by
      rcases ht' with hwork' | hread
      · exact hwork'
      · obtain rfl := Option.some.inj hread
        exact hwork
    obtain ⟨data, hwrote⟩ := h.written id req hreq t' (.inl hwork')
    exact ⟨data, List.mem_cons_of_mem _ hwrote⟩
  · intro t' hread
    obtain rfl := Option.some.inj hread
    rfl

theorem World.Filed.endRead {w : World} (h : w.Filed) : { w with reading := none }.Filed := by
  refine ⟨h.accepted, h.entry, ?_, ?_⟩
  · intro id req hreq t ht
    exact h.written id req hreq t (ht.imp_right fun hread => absurd hread (by simp))
  · intro t hread
    exact absurd hread (by simp)

theorem kept_accountable {cfg : Config} : Kept cfg World.Accountable where
  init reqId files := by
    refine ⟨lifecycle_init reqId files, ⟨?_, ?_, ?_, ?_⟩, ?_⟩
    · exact fun _ hreq => absurd hreq List.not_mem_nil
    · exact fun _ _ hreq => absurd hreq List.not_mem_nil
    · exact fun _ _ hreq => absurd hreq List.not_mem_nil
    · exact fun _ hread => absurd hread (by simp [World.init])
    · intro _ newer e older hsplit
      exact absurd hsplit (by simp [World.init])
  link := by
    rintro w w' ⟨hlife, hfiled, hj⟩ hlink
    refine ⟨hlink.lifecycle hlife, hlink.filed hlife hfiled, ?_⟩
    intro hstraight
    refine hlink.justified hfiled hstraight (hj ?_)
    exact fun e he => hstraight e (hlink.trace_suffix.subset he)
  threads := by
    rintro w supply worker user ⟨hlife, hfiled, hj⟩
    exact ⟨hlife.of_eq rfl rfl rfl id, hfiled.of_eq rfl rfl rfl rfl rfl, hj⟩
  start := by
    rintro w t ⟨hlife, hfiled, hj⟩ _ hwork
    refine ⟨hlife.of_eq rfl rfl rfl id, hfiled.startRead hwork, ?_⟩
    intro hstraight
    exact justified_cons (hj fun e he => hstraight e (List.mem_cons_of_mem _ he)) trivial
  finish := by
    rintro w ⟨hlife, hfiled, hj⟩
    exact ⟨hlife.of_eq rfl rfl rfl id, hfiled.endRead, hj⟩
  loopEnd := by
    rintro w ⟨_, hfiled, hj⟩ hidle
    exact ⟨.loopEnd hidle, hfiled.of_eq rfl rfl rfl rfl rfl, hj⟩

/-- **Status `0` means success.** In every run in which asyncs fire while their transport
works and no message of type `REQUEST` carries the id of a pending request, each request
callback with status `0` runs while a response to that very request is handled on its own
connection, each notify callback with status `0` runs after its write succeeded, and all
other callbacks get `-1`. -/
theorem callbacks_justified {cfg : Config} {w : World} (h : Reachable cfg w)
    (hstraight : ∀ e ∈ w.trace, e.Straight) : Justified w.trace :=
  (kept_accountable.reach h).2.2 hstraight

/-- A request that is answered is called back with `0`, and rightly so. -/
theorem justified_answeredRun :
    ∃ w rest, runSteps (plainConfig false) answeredRun plainInit = some w ∧
      w.trace = .requestCb 0 0 :: rest ∧ (∀ e ∈ w.trace, e.Straight) ∧ Justified w.trace := by
  have hrun : ∃ w rest, runSteps (plainConfig false) answeredRun plainInit = some w ∧
      w.trace = .requestCb 0 0 :: rest ∧ (∀ e ∈ w.trace, e.Straight) :=
    ⟨_, _, rfl, rfl, by decide +kernel⟩
  obtain ⟨w, rest, hrun, htrace, hstraight⟩ := hrun
  have hreach := reachable_of_run hrun
  exact ⟨w, rest, hrun, htrace, hstraight, callbacks_justified hreach hstraight⟩

/-- A request whose async fires after the client was stopped. -/
def lateAsyncRun : List (List Bool × Label) :=
  plainStart ++ [([], .call (.request [97] (some (.obj [])))), ([], .call .stop),
    ([], .asyncWrite 0)]

/-- It is called back with `0`, although nothing was ever written. -/
theorem not_justified_lateAsyncRun :
    ∃ w, runSteps (plainConfig false) lateAsyncRun plainInit = some w ∧
      Reachable (plainConfig false) w ∧ ¬ Justified w.trace := by
  have hrun : ∃ w req rest, runSteps (plainConfig false) lateAsyncRun plainInit = some w ∧
      w.trace = .requestCb 0 0 :: .asyncFired req false :: rest := ⟨_, _, _, rfl, rfl⟩
  obtain ⟨w, req, rest, hrun, htrace⟩ := hrun
  refine ⟨w, hrun, reachable_of_run hrun, ?_⟩
  intro hj
  rcases hj [] _ _ htrace with hstatus | ⟨-, _, _, _, _, _, _, -, -, holder, -⟩
  · exact absurd hstatus (by decide)
  · exact absurd (List.cons.inj holder).1 (by simp)

end Libpomelo
