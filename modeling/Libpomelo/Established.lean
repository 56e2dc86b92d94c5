import Libpomelo.Lifecycle

/-!
# What the state says about the connection

The write and request paths dereference `client->transport` and rely on nothing but
`client->state`. They may:

* a client that is `CONNECTED` or `WORKING` has a current transport, and that transport
  works;
* a client that is `CONNECTING` has none, outside of the connect handler;
* a client that is `WORKING` got there by the handshake: on the same transport a response
  with code 200 was processed and accepted, and the ack was written.

The third needs the writes under way: an ack is only queued after the response was
accepted, so one that completes, however late, speaks for the transport it was written to.
And only the current transport can still be working then.
-/

namespace Libpomelo

/-- On this transport a response with code 200 was processed and accepted, and an ack
completed. -/
def Acknowledged (trace : List Event) (t : ℕ) : Prop :=
  ∃ res server client write working listed,
    jsonIntegerValue (jsonObjectGet (some res) "code") = handshakeOk ∧
    .shook (some t) res server client ∈ trace ∧ .agreed (some t) res ∈ trace ∧
    write.cb = .handshakeAck ∧ write.transport = t ∧
    .writeDone write 0 working listed ∈ trace

/-- What the events say about the handshake. -/
structure Shaken (trace : List Event) : Prop where
  /-- only responses with code 200 are processed -/
  code : ∀ t res server client, .shook t res server client ∈ trace →
    jsonIntegerValue (jsonObjectGet (some res) "code") = handshakeOk
  /-- only processed responses are accepted -/
  processed : ∀ t res, .agreed (some t) res ∈ trace →
    ∃ server client, .shook (some t) res server client ∈ trace
  /-- an ack that completes follows an accepted response -/
  done : ∀ write status working listed, .writeDone write status working listed ∈ trace →
    write.cb = .handshakeAck → ∃ res, .agreed (some write.transport) res ∈ trace

/-- **What the state says about the connection.** While a reset is running, the transport is
gone already and the state is still the old one. -/
structure World.Established (w : World) : Prop where
  /-- a connect under way has a socket -/
  launched : ∀ t req, (t, req) ∈ w.connects →
    ∃ s, w.transports[t]? = some s ∧ s ≠ .inited
  /-- no transport before the TCP connect is through -/
  unset : w.state = .inited ∨ w.state = .connecting → w.transport = none
  /-- a transport that works from then on -/
  session : w.state = .connected ∨ w.state = .working → w.resetting = false →
    ∃ t, w.transport = some t ∧ w.working t = true
  /-- the history of the handshake -/
  shaken : Shaken w.trace
  /-- an ack under way follows an accepted response -/
  queued : ∀ write ∈ w.writes, write.cb = .handshakeAck →
    ∃ res, .agreed (some write.transport) res ∈ w.trace
  /-- the handshake of a client that is `WORKING` -/
  acked : w.state = .working → ∀ t, w.transport = some t → Acknowledged w.trace t

/-! ## Histories -/

section Histories

variable {trace : List Event} {e : Event}

theorem Acknowledged.mono {trace' : List Event} {t : ℕ} (h : Acknowledged trace t)
    (hsub : trace ⊆ trace') : Acknowledged trace' t := by
  obtain ⟨res, server, client, write, working, listed, hcode, hshook, hagreed, hcb, ht, hdone⟩ := h
  exact ⟨res, server, client, write, working, listed, hcode, hsub hshook, hsub hagreed, hcb, ht,
    hsub hdone⟩

/-- A new event, with what it has to follow if it belongs to the handshake. -/
theorem Shaken.cons (h : Shaken trace)
    (hcode : ∀ t res server client, e = .shook t res server client →
      jsonIntegerValue (jsonObjectGet (some res) "code") = handshakeOk)
    (hprocessed : ∀ t res, e = .agreed (some t) res →
      ∃ server client, .shook (some t) res server client ∈ trace)
    (hdone : ∀ write status working listed, e = .writeDone write status working listed →
      write.cb = .handshakeAck → ∃ res, .agreed (some write.transport) res ∈ trace) :
    Shaken (e :: trace) := by
  refine ⟨?_, ?_, ?_⟩
  · intro t res server client hmem
    rcases List.mem_cons.1 hmem with heq | hold
    · exact hcode t res server client heq.symm
    · exact h.code t res server client hold
  · intro t res hmem
    -- the evidence lies in the old part of the trace in either case
    have hseen : ∃ server client, .shook (some t) res server client ∈ trace := by
      rcases List.mem_cons.1 hmem with heq | hold
      · exact hprocessed t res heq.symm
      · exact h.processed t res hold
    obtain ⟨server, client, hshook⟩ := hseen
    exact ⟨server, client, List.mem_cons_of_mem _ hshook⟩
  · intro write status working listed hmem hcb
    have hseen : ∃ res, .agreed (some write.transport) res ∈ trace := by
      rcases List.mem_cons.1 hmem with heq | hold
      · exact hdone write status working listed heq.symm hcb
      · exact h.done write status working listed hold hcb
    obtain ⟨res, hagreed⟩ := hseen
    exact ⟨res, List.mem_cons_of_mem _ hagreed⟩

/-- An event that is not about the handshake. -/
theorem Shaken.aside (h : Shaken trace) (hshook : ∀ t res server client, e ≠ .shook t res server client)
    (hagreed : ∀ t res, e ≠ .agreed t res)
    (hdone : ∀ write status working listed, e ≠ .writeDone write status working listed) :
    Shaken (e :: trace) :=
  h.cons (fun t res server client heq => absurd heq (hshook t res server client))
    (fun t res heq => absurd heq (hagreed (some t) res))
    (fun write status working listed heq => absurd heq (hdone write status working listed))

end Histories

/-! ## Transports -/

section Transports

variable {P : TransportState → Prop} {t : ℕ} {transports : List TransportState}

/-- What a transport is stays true when sockets are closed, if it is true of a closed one. -/
theorem closeSocket_keeps (hclosed : P .closed) (t' : ℕ) (h : ∃ s, transports[t]? = some s ∧ P s) :
    ∃ s, (closeSocket t' transports)[t]? = some s ∧ P s := by
  have hset : ∃ s, (transports.set t' .closed)[t]? = some s ∧ P s := by
    obtain ⟨s, hs, hP⟩ := h
    by_cases htt : t' = t
    · subst htt
      exact ⟨.closed, List.getElem?_set_self (List.getElem?_eq_some_iff.1 hs).1, hclosed⟩
    · exact ⟨s, by rw [List.getElem?_set_ne htt]; exact hs, hP⟩
  rw [closeSocket]
  split
  · exact hset
  · exact hset
  · exact h

theorem dropTransport_keeps {w : World} (hclosed : P .closed)
    (h : ∃ s, w.transports[t]? = some s ∧ P s) :
    ∃ s, (dropTransport w).transports[t]? = some s ∧ P s := by
  rw [dropTransport]
  dsimp only
  split
  · exact closeSocket_keeps hclosed _ h
  · exact h

/-- A new transport leaves the others as they are. -/
theorem append_keeps (s' : TransportState) (h : ∃ s, transports[t]? = some s ∧ P s) :
    ∃ s, (transports ++ [s'])[t]? = some s ∧ P s := by
  obtain ⟨s, hs, hP⟩ := h
  exact ⟨s, by rw [List.getElem?_append_left (List.getElem?_eq_some_iff.1 hs).1]; exact hs, hP⟩

end Transports

/-! ## Moves -/

section Moves

variable {cfg : Config} {begins : Bool} {w w' : World}

/-- Nothing changes but the history. -/
theorem World.Established.of_eq (h : w.Established) (hconnects : w'.connects = w.connects)
    (htransports : w'.transports = w.transports) (hstate : w'.state = w.state)
    (htransport : w'.transport = w.transport) (hreset : w'.resetting = w.resetting)
    (hwrites : w'.writes ⊆ w.writes) (hsub : w.trace ⊆ w'.trace) (hshaken : Shaken w'.trace) :
    w'.Established := by
  refine ⟨?_, ?_, ?_, hshaken, ?_, ?_⟩
  · rw [hconnects, htransports]
    exact h.launched
  · rw [hstate, htransport]
    exact h.unset
  · have hwork : w'.working = w.working := by
      funext t
      rw [World.working, htransports]
      rfl
    rw [hstate, htransport, hreset, hwork]
    exact h.session
  · intro write hmem hcb
    obtain ⟨res, hagreed⟩ := h.queued write (hwrites hmem) hcb
    exact ⟨res, hsub hagreed⟩
  · rw [hstate, htransport]
    exact fun hst t ht => (h.acked hst t ht).mono hsub

/-- The same, with the same history. -/
theorem World.Established.same (h : w.Established) (hconnects : w'.connects = w.connects)
    (htransports : w'.transports = w.transports) (hstate : w'.state = w.state)
    (htransport : w'.transport = w.transport) (hreset : w'.resetting = w.resetting)
    (hwrites : w'.writes ⊆ w.writes) (htrace : w'.trace = w.trace) : w'.Established := by
  apply h.of_eq hconnects htransports hstate htransport hreset hwrites
  · rw [htrace]
    exact List.Subset.refl _
  · rw [htrace]
    exact h.shaken

/-- The same, with one more event. -/
theorem World.Established.note {e : Event} (h : w.Established) (hshaken : Shaken (e :: w.trace)) :
    (w.note e).Established :=
  h.of_eq rfl rfl rfl rfl rfl (List.Subset.refl _) (List.subset_cons_self _ _) hshaken

/-- The client leaves its connection: nothing is claimed of the new state. -/
theorem World.Established.leave (h : w.Established)
    (hlaunched : ∀ t req, (t, req) ∈ w'.connects → ∃ s, w'.transports[t]? = some s ∧ s ≠ .inited)
    (hunset : w'.state = .inited ∨ w'.state = .connecting → w'.transport = none)
    (hstate : w'.state = .connected ∨ w'.state = .working →
      w'.resetting = true ∧ w'.transport = none)
    (hwrites : w'.writes = w.writes) (hsub : w.trace ⊆ w'.trace) (hshaken : Shaken w'.trace) :
    w'.Established := by
  refine ⟨hlaunched, hunset, ?_, hshaken, ?_, ?_⟩
  · intro hst hreset
    rw [(hstate hst).1] at hreset
    exact absurd hreset (by decide)
  · intro write hmem hcb
    rw [hwrites] at hmem
    obtain ⟨res, hagreed⟩ := h.queued write hmem hcb
    exact ⟨res, hsub hagreed⟩
  · intro hst t ht
    rw [(hstate (.inr hst)).2] at ht
    exact absurd ht (by simp)

theorem Event.Quiet.shaken {e : Event} (hq : e.Quiet w) (hw : w.Established) :
    Shaken (e :: w.trace) := by
  cases e with
  | agreed transport res =>
    refine hw.shaken.cons (by simp) ?_ (by simp)
    intro t res' heq
    obtain ⟨rfl, rfl⟩ := Event.agreed.inj heq
    exact hq.2 t rfl
  | writeDone write status working listed =>
    apply hw.shaken.cons (by simp) (by simp)
    intro write' _ _ _ heq hcb
    obtain ⟨rfl, -⟩ := Event.writeDone.inj heq
    exact hw.queued write hq hcb
  | shook => exact absurd hq id
  | _ => exact hw.shaken.aside (by simp) (by simp) (by simp)

theorem World.Established.queueWrite {cb : WriteCb} {t : ℕ} {data : Option Bytes}
    (h : w.Established)
    (hdue : cb = .handshakeAck → ∃ res, .agreed (some t) res ∈ w.trace) :
    (queueWrite cb t data w).Established := by
  have hshaken : Shaken (.wrote ⟨cb, t, data⟩ :: w.trace) :=
    h.shaken.aside (by simp) (by simp) (by simp)
  have hnote := h.note hshaken
  refine ⟨hnote.launched, hnote.unset, hnote.session, hshaken, ?_, hnote.acked⟩
  intro write hmem hcb
  rcases List.mem_append.1 hmem with hold | hnew
  · exact hnote.queued write hold hcb
  · rw [List.mem_singleton.1 hnew] at hcb ⊢
    obtain rfl : cb = .handshakeAck := hcb
    obtain ⟨res, hagreed⟩ := hdue rfl
    exact ⟨res, List.mem_cons_of_mem _ hagreed⟩

theorem Move.established (h : Move cfg begins w w') (hw : w.Established) : w'.Established := by
  cases h with
  | inert w' hin _ =>
    rw [hin.eq]
    exact hw.same rfl rfl rfl rfl rfl (List.Subset.refl _) rfl
  | note e hq => exact hw.note (hq.shaken hw)
  | shook w' t res hin _ hcode _ =>
    -- the tables are set up first, and the event is recorded behind that
    have hshaken : Shaken (.shook w'.transport res w'.tables.serverProtos w'.tables.clientProtos ::
        w.trace) := by
      refine hw.shaken.cons ?_ (by simp) (by simp)
      intro _ res' _ _ heq
      obtain ⟨-, rfl, -⟩ := Event.shook.inj heq
      exact hcode
    have hsame : w'.Established := by
      rw [hin.eq]
      exact hw.same rfl rfl rfl rfl rfl (List.Subset.refl _) rfl
    apply hsame.note
    have htrace : w'.trace = w.trace := by rw [hin.eq]
    rw [htrace]
    exact hshaken
  | accept req _ _ _ _ _ =>
    exact World.Established.note (hw.same rfl rfl rfl rfl rfl (List.Subset.refl _) rfl)
      (hw.shaken.aside (by simp) (by simp) (by simp))
  | queueWrite cb t data _ hdue _ =>
    refine hw.queueWrite ?_
    rintro rfl
    exact hdue
  | popWrite i =>
    exact hw.same rfl rfl rfl rfl rfl (List.eraseIdx_sublist _ _).subset rfl
  | sendNotify i t data req =>
    have hpop : { w with asyncs := w.asyncs.eraseIdx i }.Established :=
      hw.same rfl rfl rfl rfl rfl (List.Subset.refl _) rfl
    exact hpop.queueWrite (by simp)
  | asyncRequestCb | asyncNotifyCb | release | respond | orphanCb | lateCb | closeHandled =>
    exact World.Established.note (hw.same rfl rfl rfl rfl rfl (List.Subset.refl _) rfl)
      (hw.shaken.aside (by simp) (by simp) (by simp))
  | notifyDone i write req done working listed _ hi hcb =>
    have hpop : { w with writes := w.writes.eraseIdx i }.Established :=
      hw.same rfl rfl rfl rfl rfl (List.eraseIdx_sublist _ _).subset rfl
    -- the write of a notify is no ack
    have hshaken : Shaken (.writeDone write done working listed :: w.trace) := by
      refine hw.shaken.cons (by simp) (by simp) fun write' _ _ _ heq hack => ?_
      obtain ⟨rfl, -⟩ := Event.writeDone.inj heq
      exact absurd (hcb.symm.trans hack) (by simp)
    have hdone : ({ w with writes := w.writes.eraseIdx i }.note
        (.writeDone write done working listed)).Established := hpop.note hshaken
    exact hdone.note (hshaken.aside (by simp) (by simp) (by simp))
  | beginReset _ _ _ _ =>
    refine hw.leave ?_ (fun _ => rfl) (fun _ => ⟨rfl, rfl⟩) rfl (List.subset_cons_self _ _)
      (hw.shaken.aside (by simp) (by simp) (by simp))
    exact fun t req hmem => dropTransport_keeps (by decide) (hw.launched t req hmem)
  | reset delay _ _ hin =>
    exact hw.leave hw.launched (fun _ => hin.transport) (fun hst => absurd hst (by simp [World.note]))
      rfl (List.subset_cons_self _ _) (hw.shaken.aside (by simp) (by simp) (by simp))
  | closeInited _ _ =>
    exact hw.leave hw.launched (fun hst => absurd hst (by simp)) (fun hst => absurd hst (by simp))
      rfl (List.Subset.refl _) hw.shaken
  | close _ _ _ =>
    have hstop : Shaken (.stop w.state w.reconnecting :: w.trace) :=
      hw.shaken.aside (by simp) (by simp) (by simp)
    refine hw.leave ?_ (fun _ => rfl) (fun hst => absurd hst (by simp)) rfl
      (List.Subset.trans (List.subset_cons_self _ _) (List.subset_cons_self _ _))
      (hstop.aside (by simp) (by simp) (by simp))
    exact fun t req hmem => dropTransport_keeps (by decide) (hw.launched t req hmem)
  | disconnect =>
    exact hw.leave hw.launched (fun hst => absurd hst (by simp [disconnectSet, World.note]))
      (fun hst => absurd hst (by simp [disconnectSet, World.note])) rfl (List.subset_cons_self _ _)
      (hw.shaken.aside (by simp) (by simp) (by simp))
  | _ => exact hw.same rfl rfl rfl rfl rfl (List.Subset.refl _) rfl

/-- The result of a TCP connect leaves the other connects under way. -/
theorem World.Established.popConnect (h : w.Established) (i : ℕ) :
    { w with connects := w.connects.eraseIdx i }.Established := by
  refine ⟨?_, h.unset, h.session, h.shaken, h.queued, h.acked⟩
  exact fun t req hmem => h.launched t req ((List.eraseIdx_sublist _ _).subset hmem)

/-- The transport whose TCP connect succeeds is `CONNECTING`: nothing works yet, and libuv
reports no success on a closed socket. -/
theorem World.Established.connecting {i t : ℕ} {req : ConnReq} (h : w.Established)
    (hlife : w.Lifecycle) (hi : w.connects[i]? = some (t, req)) (hst : w.state = .connecting)
    (hopen : w.transports[t]? ≠ some .closed) : w.transports[t]? = some .connecting := by
  obtain ⟨s, hs, hne⟩ := h.launched t req (List.mem_of_getElem? hi)
  have hidle : ¬ w.transports[t]? = some .working := by
    have hno := hlife.idle (.inr (.inl hst)) t
    simpa [World.working] using hno
  cases s with
  | inited => exact absurd rfl hne
  | connecting => exact hs
  | working => exact absurd hs hidle
  | closed => exact absurd hs hopen

/-- **A connection starts.** -/
theorem World.Established.connected {i t : ℕ} {req : ConnReq} (h : w.Established)
    (hlife : w.Lifecycle) (hi : w.connects[i]? = some (t, req)) (hst : w.state = .connecting)
    (hopen : w.transports[t]? ≠ some .closed) :
    (transportStart t { w with
      connects := w.connects.eraseIdx i, transport := some t, state := .connected }).Established := by
  have hconnecting := h.connecting hlife hi hst hopen
  have hlen : t < w.transports.length := (List.getElem?_eq_some_iff.1 hconnecting).1
  rw [transportStart]
  simp only [if_pos hconnecting]
  refine ⟨?_, fun hst => absurd hst (by simp), ?_, h.shaken, h.queued, fun hst => absurd hst (by simp)⟩
  · intro t' req' hmem
    obtain ⟨s, hs, hne⟩ := h.launched t' req' ((List.eraseIdx_sublist _ _).subset hmem)
    by_cases htt : t = t'
    · subst htt
      exact ⟨.working, List.getElem?_set_self hlen, by decide⟩
    · exact ⟨s, by rw [List.getElem?_set_ne htt]; exact hs, hne⟩
  · intro _ _
    exact ⟨t, rfl, decide_eq_true (List.getElem?_set_self hlen)⟩

/-- **The ack completes.** Its transport works, so it is the current one. -/
theorem World.Established.ack {t : ℕ} {write : Write} {working listed : Bool} (h : w.Established)
    (hlife : w.Lifecycle) (hwork : w.working t = true) (hcb : write.cb = .handshakeAck)
    (htransport : write.transport = t) (hdone : .writeDone write 0 working listed ∈ w.trace) :
    ({ w with state := .working }.note (.acked w.state)).Established := by
  have hcurrent : w.transport = some t := hlife.current t hwork
  have hshaken : Shaken (.acked w.state :: w.trace) := h.shaken.aside (by simp) (by simp) (by simp)
  refine ⟨h.launched, fun hst => absurd hst (by simp [World.note]), fun _ _ => ⟨t, hcurrent, hwork⟩,
    hshaken, ?_, ?_⟩
  · intro write' hmem hcb'
    obtain ⟨res, hagreed⟩ := h.queued write' hmem hcb'
    exact ⟨res, List.mem_cons_of_mem _ hagreed⟩
  · intro _ t' ht'
    obtain rfl : t = t' := Option.some.inj (hcurrent.symm.trans ht')
    obtain ⟨res, hagreed⟩ := h.shaken.done write 0 working listed hdone hcb
    rw [htransport] at hagreed
    obtain ⟨server, client, hshook⟩ := h.shaken.processed t res hagreed
    have hack : Acknowledged w.trace t :=
      ⟨res, server, client, write, working, listed, h.shaken.code _ _ _ _ hshook, hshook, hagreed,
        hcb, htransport, hdone⟩
    exact hack.mono (List.subset_cons_self _ _)

theorem Link.established (h : Link cfg w w') (hlife : w.Lifecycle) (hw : w.Established) :
    w'.Established := by
  cases h with
  | move hm => exact hm.established hw
  | connecting hst =>
    exact hw.leave hw.launched (fun _ => hw.unset (.inl hst)) (fun hst => absurd hst (by simp)) rfl
      (List.Subset.refl _) hw.shaken
  | setConnReq => exact hw.same rfl rfl rfl rfl rfl (List.Subset.refl _) rfl
  | transportNew =>
    refine ⟨?_, hw.unset, ?_, hw.shaken, hw.queued, hw.acked⟩
    · exact fun t req hmem => append_keeps _ (hw.launched t req hmem)
    · intro hst hreset
      obtain ⟨t, ht, hwork⟩ := hw.session hst hreset
      refine ⟨t, ht, ?_⟩
      rw [World.working, decide_eq_true_eq] at hwork ⊢
      exact (getElem?_concat_ne (by decide) t).2 hwork
  | launch req =>
    have hshaken : Shaken (.connectAccepted req :: w.trace) :=
      hw.shaken.aside (by simp) (by simp) (by simp)
    have hnote := hw.note hshaken
    refine ⟨?_, hnote.unset, ?_, hshaken, hnote.queued, hnote.acked⟩
    · intro t req' hmem
      rcases List.mem_append.1 hmem with hold | hnew
      · exact append_keeps _ (hw.launched t req' hold)
      · obtain ⟨rfl, -⟩ := Prod.mk.inj (List.mem_singleton.1 hnew)
        exact ⟨.connecting, List.getElem?_concat_length, by decide⟩
    · intro hst hreset
      obtain ⟨t, ht, hwork⟩ := hw.session hst hreset
      refine ⟨t, ht, ?_⟩
      rw [World.working, decide_eq_true_eq] at hwork ⊢
      exact (getElem?_concat_ne (by decide) t).2 hwork
  | stale i t req _ _ => exact hw.popConnect i
  | refused i t req _ hst =>
    -- its transport never worked, so no session ends with it
    have hpop := hw.popConnect i
    refine hpop.leave ?_ hpop.unset (fun hst' => ?_) rfl (List.Subset.refl _) hw.shaken
    · exact fun t' req' hmem => closeSocket_keeps (by decide) _ (hpop.launched t' req' hmem)
    · have hsame : (transportDestroy t { w with connects := w.connects.eraseIdx i }).state =
          .connecting := hst
      rw [hsame] at hst'
      exact absurd hst' (by decide)
  | connected i t req hi hst hopen => exact hw.connected hlife hi hst hopen
  | greet => exact hw.queueWrite (by simp)
  | connectCb req status => exact hw.note (hw.shaken.aside (by simp) (by simp) (by simp))
  | acked t write working listed hwork hcb htransport hdone =>
    exact hw.ack hlife hwork hcb htransport hdone

end Moves

/-! ## Runs -/

theorem established_init (reqId : ℕ) (files : ProtoFiles) : (World.init reqId files).Established where
  launched _ _ hmem := absurd hmem List.not_mem_nil
  unset _ := rfl
  session hst := absurd hst (by simp [World.init])
  shaken := ⟨fun _ _ _ _ hmem => absurd hmem List.not_mem_nil,
    fun _ _ hmem => absurd hmem List.not_mem_nil,
    fun _ _ _ _ hmem => absurd hmem List.not_mem_nil⟩
  queued _ hmem := absurd hmem List.not_mem_nil
  acked hst := absurd hst (by simp [World.init])

theorem kept_established {cfg : Config} : Kept cfg fun w => w.Lifecycle ∧ w.Established := by
  apply kept_lifecycle.and established_init
  · exact fun w w' hlife hw hlink => hlink.established hlife hw
  · exact fun w supply worker user hw => hw.same rfl rfl rfl rfl rfl (List.Subset.refl _) rfl
  · intro w t _ hw _ _
    exact World.Established.note (hw.same rfl rfl rfl rfl rfl (List.Subset.refl _) rfl)
      (hw.shaken.aside (by simp) (by simp) (by simp))
  · exact fun w hw => hw.same rfl rfl rfl rfl rfl (List.Subset.refl _) rfl
  · intro w _ hw _
    exact hw.leave hw.launched (fun hst => absurd hst (by simp)) (fun hst => absurd hst (by simp))
      rfl (List.Subset.refl _) hw.shaken

theorem reach_established {cfg : Config} {ok : World → List Bool × Label → World → Prop} {w : World}
    (h : (clientLts cfg).Reach ok w) : w.Lifecycle ∧ w.Established :=
  kept_established.reach h

/-- **What the state says about the connection.** In every state a run reaches, as long as
the program runs: `CONNECTED` and `WORKING` mean a current transport that works, `CONNECTING`
means none, and `WORKING` means that the handshake on the current transport went through. -/
theorem state_connection {cfg : Config} {w : World} (h : Reachable cfg w) (hrun : w.halted = none) :
    (w.state = .connected ∨ w.state = .working →
      ∃ t, w.transport = some t ∧ w.transports[t]? = some .working) ∧
    (w.state = .connecting → w.transport = none) ∧
    (w.state = .working → ∃ t, w.transport = some t ∧ Acknowledged w.trace t) := by
  have hw := (reach_established h).2
  have hreset : w.resetting = false := reach_settled h hrun
  refine ⟨?_, fun hst => hw.unset (.inr hst), ?_⟩
  · intro hst
    obtain ⟨t, ht, hwork⟩ := hw.session hst hreset
    exact ⟨t, ht, by simpa [World.working] using hwork⟩
  · intro hst
    obtain ⟨t, ht, -⟩ := hw.session (.inr hst) hreset
    exact ⟨t, ht, hw.acked hst t ht⟩

/-- A client that has just become `WORKING`. -/
theorem state_connection_plainStart :
    ∃ w, runSteps (plainConfig true) plainStart plainInit = some w ∧ w.state = .working ∧
      ∃ t, w.transport = some t ∧ w.transports[t]? = some .working ∧ Acknowledged w.trace t := by
  have hstart : ∃ w, runSteps (plainConfig true) plainStart plainInit = some w ∧
      w.state = .working ∧ w.halted = none := ⟨_, rfl, rfl, rfl⟩
  obtain ⟨w, hrun, hstate, hhalted⟩ := hstart
  obtain ⟨hsession, -, hacked⟩ := state_connection (reachable_of_run hrun) hhalted
  obtain ⟨t, ht, hwork⟩ := hsession (.inr hstate)
  obtain ⟨t', ht', hack⟩ := hacked hstate
  obtain rfl : t = t' := Option.some.inj (ht.symm.trans ht')
  exact ⟨w, hrun, hstate, t, ht, hwork, hack⟩

end Libpomelo
