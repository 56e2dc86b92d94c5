import Libpomelo.Established
import Libpomelo.PackageStream
import Libpomelo.RequestOnce

/-!
# What goes over a connection

A connection carries the packages that its transport was given, in the order of the writes. In
every run, however connects, stops and reconnects are interleaved:

* the handshake request comes first, and only once (`Greeted`);
* an ack follows a response that was accepted on this connection, a heartbeat or a package of data
  follows the ack, and the data belongs to a request or notify that was accepted on this connection
  (`Write.Follows`);
* what is written are whole packages, so the peer's parser finds one package for each write.

The order is kept by every move. That the handshake request comes first is a matter of the turn
that handles the TCP connect: before it the transport was never current.
-/

namespace Libpomelo

/-! ## The writes of a connection -/

/-- The write of an event, if it goes over the transport. -/
def Event.writeOn (t : ℕ) : Event → Option Write
  | .wrote write => if write.transport = t then some write else none
  | _ => none

/-- The writes of a connection, oldest first. -/
def writesOn (trace : List Event) (t : ℕ) : List Write := trace.reverse.filterMap (Event.writeOn t)

/-- The handshake request comes first, and only once. -/
def Greeted (writes : List Write) : Prop :=
  ∀ first rest, writes = first :: rest →
    first.cb.pkgType = pkgHandshake ∧ ∀ write ∈ rest, write.cb.pkgType ≠ pkgHandshake

/-- What has to be behind a write when it is queued. -/
def Write.Follows (older : List Event) (write : Write) : Prop :=
  match write.cb with
  | .handshakeReq => True
  | .handshakeAck => ∃ res server client,
      jsonIntegerValue (jsonObjectGet (some res) "code") = handshakeOk ∧
      .shook (some write.transport) res server client ∈ older ∧
      .agreed (some write.transport) res ∈ older
  | .heartbeatReq => Acknowledged older write.transport
  | .request req | .notify req =>
    .accepted req ∈ older ∧ req.transport = write.transport ∧ Acknowledged older write.transport

/-- The peer's parser hands out one package for the write, of its type and with the body that was
packed. -/
def Write.ReadAs (write : Write) (call : PkgCall) : Prop :=
  call.type = write.cb.pkgType ∧ write.data = pkgEncode [] write.cb.pkgType call.data.bytes

section Writes

variable {trace : List Event} {e : Event} {t : ℕ} {write : Write}

theorem writesOn_cons (e : Event) (trace : List Event) (t : ℕ) :
    writesOn (e :: trace) t = writesOn trace t ++ (e.writeOn t).toList := by
  rw [writesOn, List.reverse_cons, List.filterMap_append, writesOn]
  cases h : e.writeOn t <;> simp [h]

theorem writesOn_aside (h : ∀ write, e ≠ .wrote write) (t : ℕ) :
    writesOn (e :: trace) t = writesOn trace t := by
  rw [writesOn_cons]
  cases e with
  | wrote write => exact absurd rfl (h write)
  | _ => exact List.append_nil _

theorem writesOn_wrote (trace : List Event) (write : Write) :
    writesOn (.wrote write :: trace) write.transport = writesOn trace write.transport ++ [write] := by
  rw [writesOn_cons, Event.writeOn, if_pos rfl]
  rfl

theorem writesOn_other (h : write.transport ≠ t) :
    writesOn (.wrote write :: trace) t = writesOn trace t := by
  rw [writesOn_cons, Event.writeOn, if_neg h]
  exact List.append_nil _

theorem mem_writesOn (h : write ∈ writesOn trace t) : .wrote write ∈ trace ∧ write.transport = t := by
  obtain ⟨e, he, hwrite⟩ := List.mem_filterMap.mp h
  cases e with
  | wrote write' =>
    rw [Event.writeOn, Option.ite_none_right_eq_some] at hwrite
    obtain ⟨ht, heq⟩ := hwrite
    obtain rfl := Option.some.inj heq
    exact ⟨List.mem_reverse.mp he, ht⟩
  | _ => exact absurd hwrite (by simp [Event.writeOn])

theorem greeted_nil : Greeted [] := fun _ _ h => absurd h (by simp)

theorem greeted_first {write : Write} (h : write.cb.pkgType = pkgHandshake) : Greeted [write] := by
  intro first rest heq
  obtain ⟨rfl, rfl⟩ := List.cons.inj heq
  exact ⟨h, by simp⟩

theorem Greeted.concat {writes : List Write} (h : Greeted writes) (hne : writes ≠ [])
    (hlater : write.cb.pkgType ≠ pkgHandshake) : Greeted (writes ++ [write]) := by
  obtain ⟨first, rest, rfl⟩ := List.exists_cons_of_ne_nil hne
  obtain ⟨hfirst, hrest⟩ := h first rest rfl
  intro first' rest' heq
  obtain ⟨rfl, rfl⟩ := List.cons.inj heq
  refine ⟨hfirst, fun write' hmem => ?_⟩
  rcases List.mem_append.mp hmem with hold | hnew
  · exact hrest write' hold
  · rw [List.mem_singleton.mp hnew]
    exact hlater

end Writes

/-! ## The order -/

/-- **The order of a history**: each write follows what it has to follow, and is a package. -/
def Ordered (trace : List Event) : Prop :=
  ∀ newer write older, trace = newer ++ .wrote write :: older →
    write.Follows older ∧ write.cb.Packs write.data

/-- **What a client writes comes in order**: the requests and notifies on their way to the loop
were accepted on a connection that is acknowledged. -/
structure World.Speaks (w : World) : Prop where
  /-- requests and notifies on their way -/
  asyncs : ∀ req ∈ w.asyncs, .accepted req ∈ w.trace ∧ Acknowledged w.trace req.transport
  /-- the writes so far -/
  ordered : Ordered w.trace

section Order

variable {cfg : Config} {begins : Bool} {w w' : World} {e : Event}

theorem Ordered.cons {trace : List Event} (h : Ordered trace)
    (he : ∀ write, e = .wrote write → write.Follows trace ∧ write.cb.Packs write.data) :
    Ordered (e :: trace) := by
  intro newer write older hsplit
  cases newer with
  | nil =>
    obtain ⟨heq, rfl⟩ := List.cons.inj hsplit
    exact he write heq
  | cons e' newer =>
    obtain ⟨-, hsplit⟩ := List.cons.inj hsplit
    exact h newer write older hsplit

theorem Ordered.aside {trace : List Event} (h : Ordered trace) (he : ∀ write, e ≠ .wrote write) :
    Ordered (e :: trace) :=
  h.cons fun write heq => absurd heq (he write)

/-- Nothing is new on the way to the loop. -/
theorem World.Speaks.mono (h : w.Speaks) (hasyncs : w'.asyncs ⊆ w.asyncs)
    (htrace : w.trace ⊆ w'.trace) (hordered : Ordered w'.trace) : w'.Speaks := by
  refine ⟨fun req hreq => ?_, hordered⟩
  obtain ⟨haccepted, hack⟩ := h.asyncs req (hasyncs hreq)
  exact ⟨htrace haccepted, hack.mono htrace⟩

theorem World.Speaks.same (h : w.Speaks) (hasyncs : w'.asyncs ⊆ w.asyncs)
    (htrace : w'.trace = w.trace) : w'.Speaks := by
  apply h.mono hasyncs
  · rw [htrace]
    exact List.Subset.refl _
  · rw [htrace]
    exact h.ordered

theorem World.Speaks.note (h : w.Speaks) (he : ∀ write, e ≠ .wrote write) : (w.note e).Speaks :=
  h.mono (List.Subset.refl _) (List.subset_cons_self _ _) (h.ordered.aside he)

/-- A request or notify is accepted by a client that is `WORKING`. -/
theorem World.Speaks.accept {req : TcpReq} (h : w.Speaks) (hest : w.Established)
    (hst : w.state = .working) (ht : w.transport = some req.transport) :
    ({ w with asyncs := w.asyncs ++ [req], nextSerial := w.nextSerial + 1 }.note
      (.accepted req)).Speaks := by
  refine ⟨fun r hr => ?_, h.ordered.aside (by simp)⟩
  rcases List.mem_append.mp hr with hold | hnew
  · obtain ⟨haccepted, hack⟩ := h.asyncs r hold
    exact ⟨List.mem_cons_of_mem _ haccepted, hack.mono (List.subset_cons_self _ _)⟩
  · obtain rfl := List.mem_singleton.mp hnew
    exact ⟨List.mem_cons_self .., (hest.acked hst _ ht).mono (List.subset_cons_self _ _)⟩

/-- What is queued has behind it what it has to follow. -/
theorem World.Speaks.wrote {cb : WriteCb} {t : ℕ} {data : Option Bytes} (h : w.Speaks)
    (hfollows : Write.Follows w.trace ⟨cb, t, data⟩) (hpacks : cb.Packs data) :
    (queueWrite cb t data w).Speaks := by
  refine h.mono (List.Subset.refl _) (List.subset_cons_self _ _) (h.ordered.cons ?_)
  intro write heq
  obtain rfl := Event.wrote.inj heq
  exact ⟨hfollows, hpacks⟩

/-- A request or notify is written where it was accepted: no other transport works. -/
theorem World.Speaks.sends {req : TcpReq} {t : ℕ} (h : w.Speaks) (hlife : w.Lifecycle)
    (ht : w.transport = some t) (hmem : req ∈ w.asyncs) (hwork : w.working req.transport = true) :
    .accepted req ∈ w.trace ∧ req.transport = t ∧ Acknowledged w.trace t := by
  obtain rfl : req.transport = t := Option.some.inj ((hlife.current _ hwork).symm.trans ht)
  obtain ⟨haccepted, hack⟩ := h.asyncs req hmem
  exact ⟨haccepted, rfl, hack⟩

/-- A write is queued at its time. -/
theorem World.Speaks.queueWrite {cb : WriteCb} {t : ℕ} {data : Option Bytes} (h : w.Speaks)
    (hlife : w.Lifecycle) (hest : w.Established) (ht : w.transport = some t) (hdue : cb.Due w t)
    (hpacks : cb.Packs data) : (queueWrite cb t data w).Speaks := by
  refine h.wrote ?_ hpacks
  cases cb with
  | handshakeReq | notify => exact absurd hdue id
  | handshakeAck =>
    obtain ⟨res, hagreed⟩ := hdue
    obtain ⟨server, client, hshook⟩ := hest.shaken.processed t res hagreed
    exact ⟨res, server, client, hest.shaken.code _ _ _ _ hshook, hshook, hagreed⟩
  | heartbeatReq => exact hest.acked hdue.1 t ht
  | request req => exact h.sends hlife ht hdue.1 hdue.2.1

theorem Move.speaks (h : Move cfg begins w w') (hlife : w.Lifecycle) (hest : w.Established)
    (hw : w.Speaks) : w'.Speaks := by
  cases h with
  | inert w' hin _ =>
    rw [hin.eq]
    exact hw.same (List.Subset.refl _) rfl
  | note e hq =>
    apply hw.note
    rintro write rfl
    exact hq
  | shook w' _ _ hin _ _ _ =>
    have hsame : w'.Speaks := by
      rw [hin.eq]
      exact hw.same (List.Subset.refl _) rfl
    exact hsame.note (by simp)
  | accept req _ ht _ _ hst => exact hw.accept hest hst ht
  | queueWrite cb t data ht hdue hpacks => exact hw.queueWrite hlife hest ht hdue hpacks
  | popAsync i => exact hw.same (List.eraseIdx_sublist _ _).subset rfl
  | asyncRequestCb i | asyncNotifyCb i =>
    have hpop : { w with asyncs := w.asyncs.eraseIdx i }.Speaks :=
      hw.same (List.eraseIdx_sublist _ _).subset rfl
    exact hpop.note (by simp)
  | sendNotify i t data req hi hwork ht hpacks =>
    obtain ⟨haccepted, htransport, hack⟩ := hw.sends hlife ht (List.mem_of_getElem? hi) hwork
    have hpop : { w with asyncs := w.asyncs.eraseIdx i }.Speaks :=
      hw.same (List.eraseIdx_sublist _ _).subset rfl
    exact hpop.wrote ⟨haccepted, htransport, hack⟩ hpacks
  | notifyDone i write req done working listed =>
    have hdone : ({ w with writes := w.writes.eraseIdx i }.note
        (.writeDone write done working listed)).Speaks :=
      World.Speaks.note (hw.same (List.Subset.refl _) rfl) (by simp)
    exact hdone.note (by simp)
  | enlist i => exact hw.same (List.eraseIdx_sublist _ _).subset rfl
  | release | respond | orphanCb | lateCb | beginReset | reset | disconnect
  | closeHandled =>
    exact hw.mono (List.Subset.refl _) (List.subset_cons_self _ _) (hw.ordered.aside (by simp))
  | close =>
    refine hw.mono (List.Subset.refl _) ?_ ((hw.ordered.aside (by simp)).aside (by simp))
    exact List.Subset.trans (List.subset_cons_self _ _) (List.subset_cons_self _ _)
  | _ => exact hw.same (List.Subset.refl _) rfl

theorem Link.speaks (h : Link cfg w w') (hlife : w.Lifecycle) (hest : w.Established)
    (hw : w.Speaks) : w'.Speaks := by
  cases h with
  | move hm => exact hm.speaks hlife hest hw
  | launch | connectCb | acked =>
    exact hw.mono (List.Subset.refl _) (List.subset_cons_self _ _) (hw.ordered.aside (by simp))
  | greet t data _ hpacks =>
    refine hw.mono (List.Subset.refl _) (List.subset_cons_self _ _) (hw.ordered.cons ?_)
    intro write heq
    obtain rfl := Event.wrote.inj heq
    exact ⟨trivial, hpacks⟩
  | _ => exact hw.same (List.Subset.refl _) rfl

end Order

theorem kept_speaks {cfg : Config} :
    Kept cfg fun w => (w.Lifecycle ∧ w.Established) ∧ w.Speaks := by
  apply kept_established.and
  · refine fun reqId files => ⟨fun req hreq => absurd hreq (by simp [World.init]), ?_⟩
    exact fun newer write older hsplit => absurd hsplit (by simp [World.init])
  · exact fun w w' hest hw hlink => hlink.speaks hest.1 hest.2 hw
  · exact fun w supply worker user hw => hw.same (List.Subset.refl _) rfl
  · exact fun w t _ hw _ _ =>
      hw.mono (List.Subset.refl _) (List.subset_cons_self _ _) (hw.ordered.aside (by simp))
  · exact fun w hw => hw.same (List.Subset.refl _) rfl
  · exact fun w _ hw _ => hw.same (List.Subset.refl _) rfl

/-! ## The greeting -/

/-- **A connection is greeted before it is used.** The transports that wait for their TCP connect
are new, and each current one was greeted. -/
structure World.Greets (w : World) : Prop where
  /-- the handshake request comes first -/
  greeted : ∀ t, Greeted (writesOn w.trace t)
  /-- the current transport was greeted -/
  opened : ∀ t, w.transport = some t → writesOn w.trace t ≠ []
  /-- nothing was written while the TCP connect is under way -/
  waiting : ∀ c ∈ w.connects, c.1 < w.transports.length ∧ writesOn w.trace c.1 = []
  /-- each transport is connected once -/
  nodup : (w.connects.map Prod.fst).Nodup
  /-- nothing was written to what does not exist -/
  known : ∀ t, w.transports.length ≤ t → writesOn w.trace t = []

/-- What a turn of a client that goes on has to keep: as long as no handshake request failed, the
connections are greeted. -/
def World.Polite (w : World) : Prop :=
  w.halted = none → .failure .handshakeReq ∉ w.trace → w.Greets

section Greeting

variable {cfg : Config} {begins : Bool} {t : ℕ} {w w' : World}

/-- No write is new, no transport is new, and none becomes current. -/
theorem World.Greets.mono (h : w.Greets) (hwrites : ∀ t, writesOn w'.trace t = writesOn w.trace t)
    (htransport : ∀ t, w'.transport = some t → w.transport = some t)
    (hconnects : w'.connects.Sublist w.connects)
    (hlength : w.transports.length ≤ w'.transports.length) : w'.Greets := by
  refine ⟨fun t => ?_, fun t ht => ?_, fun c hc => ?_, ?_, fun t ht => ?_⟩
  · rw [hwrites]
    exact h.greeted t
  · rw [hwrites]
    exact h.opened t (htransport t ht)
  · obtain ⟨hlt, hnil⟩ := h.waiting c (hconnects.subset hc)
    rw [hwrites]
    exact ⟨hlt.trans_le hlength, hnil⟩
  · exact (hconnects.map Prod.fst).nodup h.nodup
  · rw [hwrites]
    exact h.known t (hlength.trans ht)

/-- Later writes to a greeted transport are no greetings. -/
theorem World.Greets.later {cb : WriteCb} {data : Option Bytes} (h : w.Greets)
    (ht : w.transport = some t) (hcb : cb.pkgType ≠ pkgHandshake) :
    (queueWrite cb t data w).Greets := by
  have hne : writesOn w.trace t ≠ [] := h.opened t ht
  have hhere : writesOn (queueWrite cb t data w).trace t = writesOn w.trace t ++ [⟨cb, t, data⟩] :=
    writesOn_wrote w.trace ⟨cb, t, data⟩
  have helse : ∀ t', t ≠ t' → writesOn (queueWrite cb t data w).trace t' = writesOn w.trace t' :=
    fun t' hne => @writesOn_other w.trace t' ⟨cb, t, data⟩ hne
  -- a transport that was not written to is another one
  have hnil : ∀ t', writesOn w.trace t' = [] → writesOn (queueWrite cb t data w).trace t' = [] := by
    intro t' hnil
    rw [helse t' (by rintro rfl; exact hne hnil)]
    exact hnil
  refine ⟨fun t' => ?_, fun t' ht' => ?_, fun c hc => ?_, h.nodup, fun t' ht' => ?_⟩
  · by_cases heq : t = t'
    · subst heq
      rw [hhere]
      exact (h.greeted t).concat hne hcb
    · rw [helse t' heq]
      exact h.greeted t'
  · obtain rfl : t = t' := Option.some.inj (ht.symm.trans ht')
    rw [hhere]
    exact List.append_ne_nil_of_right_ne_nil _ (List.cons_ne_nil _ _)
  · exact ⟨(h.waiting c hc).1, hnil c.1 (h.waiting c hc).2⟩
  · exact hnil t' (h.known t' ht')

/-- The handshake request is written to a new transport. -/
theorem World.Greets.greet {data : Option Bytes} (h : w.Greets) (hnew : writesOn w.trace t = [])
    (hlt : t < w.transports.length) (hgone : ∀ c ∈ w.connects, c.1 ≠ t)
    (htrace : w'.trace = .wrote ⟨.handshakeReq, t, data⟩ :: w.trace)
    (htransport : w'.transport = some t) (hconnects : w'.connects = w.connects)
    (hlength : w'.transports.length = w.transports.length) : w'.Greets := by
  have hhere : writesOn w'.trace t = [⟨.handshakeReq, t, data⟩] := by
    rw [htrace, writesOn_wrote w.trace ⟨.handshakeReq, t, data⟩, hnew]
    rfl
  have helse : ∀ t', t ≠ t' → writesOn w'.trace t' = writesOn w.trace t' := by
    intro t' hne
    rw [htrace]
    exact @writesOn_other w.trace t' ⟨.handshakeReq, t, data⟩ hne
  refine ⟨fun t' => ?_, fun t' ht' => ?_, fun c hc => ?_, ?_, fun t' ht' => ?_⟩
  · by_cases heq : t = t'
    · subst heq
      rw [hhere]
      exact greeted_first rfl
    · rw [helse t' heq]
      exact h.greeted t'
  · obtain rfl : t = t' := Option.some.inj (htransport.symm.trans ht')
    rw [hhere]
    exact List.cons_ne_nil _ _
  · rw [hconnects] at hc
    rw [helse c.1 (hgone c hc).symm, hlength]
    exact h.waiting c hc
  · rw [hconnects]
    exact h.nodup
  · rw [hlength] at ht'
    rw [helse t' (hlt.trans_le ht').ne]
    exact h.known t' ht'

/-- A TCP connect is under way on a new transport. -/
theorem World.Greets.launch (h : w.Greets) {req : ConnReq}
    (htrace : w'.trace = .connectAccepted req :: w.trace) (htransport : w'.transport = w.transport)
    (hconnects : w'.connects = w.connects ++ [(w.transports.length, req)])
    (htransports : w'.transports = w.transports ++ [TransportState.connecting]) : w'.Greets := by
  have hwrites : ∀ t, writesOn w'.trace t = writesOn w.trace t := by
    rw [htrace]
    exact writesOn_aside (by simp)
  have hlength : w'.transports.length = w.transports.length + 1 := by
    rw [htransports, List.length_append]
    rfl
  refine ⟨fun t => ?_, fun t ht => ?_, fun c hc => ?_, ?_, fun t ht => ?_⟩
  · rw [hwrites]
    exact h.greeted t
  · rw [hwrites]
    exact h.opened t (htransport ▸ ht)
  · rw [hwrites, hlength]
    rw [hconnects] at hc
    rcases List.mem_append.mp hc with hold | hnew
    · obtain ⟨hlt, hnil⟩ := h.waiting c hold
      exact ⟨hlt.trans (Nat.lt_succ_self _), hnil⟩
    · rw [List.mem_singleton.mp hnew]
      exact ⟨Nat.lt_succ_self _, h.known _ le_rfl⟩
  · rw [hconnects, List.map_append, List.map_singleton, List.nodup_append]
    refine ⟨h.nodup, List.nodup_singleton _, ?_⟩
    rintro t ht t' ht' rfl
    obtain ⟨c, hc, rfl⟩ := List.mem_map.mp ht
    rw [List.mem_singleton] at ht'
    exact (h.waiting c hc).1.ne ht'
  · rw [hwrites]
    rw [hlength] at ht
    exact h.known t ((Nat.le_succ _).trans ht)

/-! ### Moves -/

theorem Move.greets (h : Move cfg begins w w') (hw : w.Greets) : w'.Greets := by
  have hconnects : w'.connects.Sublist w.connects := by rw [h.framed.connects]
  have hdropped : (dropTransport w).transports.length = w.transports.length := by
    rw [dropTransport]
    dsimp only
    split
    · exact length_closeSocket _ _
    · rfl
  cases h with
  | inert w' hin _ =>
    rw [hin.eq]
    exact hw.mono (fun _ => rfl) (fun _ ht => ht) (List.Sublist.refl _) le_rfl
  | note e hq =>
    refine hw.mono (writesOn_aside ?_) (fun _ ht => ht) hconnects le_rfl
    rintro write rfl
    exact hq
  | shook w' _ _ hin _ _ _ =>
    rw [hin.eq]
    exact hw.mono (writesOn_aside (by simp)) (fun _ ht => ht) (List.Sublist.refl _) le_rfl
  | queueWrite cb t data ht hdue _ =>
    refine hw.later ht ?_
    cases cb with
    | handshakeReq | notify => exact absurd hdue id
    | handshakeAck => exact show pkgHandshakeAck ≠ pkgHandshake by decide
    | heartbeatReq => exact show pkgHeartbeat ≠ pkgHandshake by decide
    | request => exact show pkgData ≠ pkgHandshake by decide
  | accept | asyncRequestCb | asyncNotifyCb | release | respond | orphanCb | lateCb | reset | disconnect
  | closeHandled =>
    exact hw.mono (writesOn_aside (by simp)) (fun _ ht => ht) hconnects le_rfl
  | sendNotify i t data req _ _ ht =>
    have hpop : { w with asyncs := w.asyncs.eraseIdx i }.Greets :=
      hw.mono (fun _ => rfl) (fun _ ht => ht) (List.Sublist.refl _) le_rfl
    exact hpop.later ht (show pkgData ≠ pkgHandshake by decide)
  | notifyDone i write req done working listed =>
    refine hw.mono (fun t => ?_) (fun _ ht => ht) hconnects le_rfl
    exact (writesOn_aside (by simp) t).trans (writesOn_aside (by simp) t)
  | beginReset =>
    exact hw.mono (writesOn_aside (by simp)) (fun _ ht => absurd ht (by simp [dropTransport]))
      hconnects hdropped.ge
  | close =>
    refine hw.mono (fun t => ?_) (fun _ ht => absurd ht (by simp [dropTransport])) hconnects
      hdropped.ge
    exact (writesOn_aside (by simp) t).trans (writesOn_aside (by simp) t)
  | _ => exact hw.mono (fun _ => rfl) (fun _ ht => ht) hconnects le_rfl

theorem World.Polite.of_greets (hw : w.Polite) (hhalted : w'.halted = none → w.halted = none)
    (hsub : w.trace ⊆ w'.trace) (h : w.Greets → w'.Greets) : w'.Polite :=
  fun hrun hfine => h (hw (hhalted hrun) fun hmem => hfine (hsub hmem))

/-- The fields that do not matter. -/
theorem World.Polite.same (hw : w.Polite) (hhalted : w'.halted = w.halted)
    (htrace : w'.trace = w.trace) (htransport : w'.transport = w.transport)
    (hconnects : w'.connects.Sublist w.connects)
    (hlength : w.transports.length ≤ w'.transports.length) : w'.Polite := by
  refine hw.of_greets (hhalted ▸ id) (by rw [htrace]; exact List.Subset.refl _) fun hg => ?_
  exact hg.mono (fun t => by rw [htrace]) (fun t ht => htransport ▸ ht) hconnects hlength

theorem enduring_polite : Enduring cfg World.Polite where
  move _ _ _ hw hm := hw.of_greets hm.halted hm.trace_suffix.subset hm.greets
  taken _ hw := hw.same rfl rfl rfl (List.Sublist.refl _) le_rfl
  calledBack _ _ _ hw := hw.of_greets id (List.subset_cons_self _ _) fun hg =>
    hg.mono (writesOn_aside (by simp)) (fun _ ht => ht) (List.Sublist.refl _) le_rfl

/-! ### Connecting -/

theorem enduring_mem (e : Event) : Enduring cfg fun w => e ∈ w.trace where
  move _ _ _ hw hm := hm.trace_suffix.subset hw
  taken _ hw := hw
  calledBack _ _ _ hw := List.mem_cons_of_mem _ hw

/-- The error path reports the failure. -/
theorem failure_connectError (cfg : Config) (f : Failure) (req : ConnReq) (w : World) :
    .failure f ∈ (connectError cfg f req w).trace := by
  have hmem := @enduring_mem cfg (.failure f)
  have hstop : .failure f ∈ (failWith cfg f { w with connReq := none }).trace :=
    hmem.moves (moves_clientStop _) (List.mem_cons_self ..)
  rw [connectError, World.andThen]
  split
  · exact hstop
  · exact hmem.connectCb hstop req (-1)

/-- **The handshake request is the first write of a transport** that has just become current, or
its failure is reported. -/
theorem World.Greets.handshakeReq (h : w.Greets) (hnew : writesOn w.trace t = [])
    (hlt : t < w.transports.length) (hgone : ∀ c ∈ w.connects, c.1 ≠ t)
    (htrace : w'.trace = w.trace) (htransport : w'.transport = some t)
    (hconnects : w'.connects = w.connects) (hlength : w'.transports.length = w.transports.length)
    (req : ConnReq) :
    ((Libpomelo.handshakeReq cfg w').2 = true → (Libpomelo.handshakeReq cfg w').1.Polite) ∧
      ((Libpomelo.handshakeReq cfg w').2 = false →
        ((Libpomelo.handshakeReq cfg w').1.andThen (connectError cfg .handshakeReq req)).Polite) := by
  have hload : (loadProtoVer w').trace = w'.trace ∧ (loadProtoVer w').transport = w'.transport ∧
      (loadProtoVer w').connects = w'.connects ∧
      (loadProtoVer w').transports = w'.transports := by
    rw [loadProtoVer]
    split <;> exact ⟨rfl, rfl, rfl, rfl⟩
  obtain ⟨htrace₁, htransport₁, hconnects₁, htransports₁⟩ := hload
  have hcases := handshakeReq_cases cfg w'
  generalize loadProtoVer w' = w₁ at htrace₁ htransport₁ hconnects₁ htransports₁ hcases
  generalize Libpomelo.handshakeReq cfg w' = r at hcases ⊢
  have hfailed : ∀ v : World, (v.andThen (connectError cfg .handshakeReq req)).Polite := by
    intro v
    rw [World.andThen]
    split
    · next hhalt =>
      intro hrun
      rw [hrun] at hhalt
      exact absurd hhalt (by decide)
    · exact fun _ hfine => absurd (failure_connectError cfg .handshakeReq req v) hfine
  cases hcases with
  | failed supply => exact ⟨fun hno => absurd hno (by simp), fun _ => hfailed _⟩
  | crashed supply => exact ⟨fun hno => absurd hno (by simp), fun _ => hfailed _⟩
  | stranded t' data supply _ _ =>
    exact ⟨fun _ hrun => absurd hrun (by simp [World.halt]), fun hno => absurd hno (by simp)⟩
  | queued t' data supply ht' _ _ _ =>
    obtain rfl : t = t' := Option.some.inj (htransport.symm.trans (htransport₁.symm.trans ht'))
    refine ⟨fun _ _ _ => ?_, fun hno => absurd hno (by simp)⟩
    have hgreet : (queueWrite .handshakeReq t (some data) { w₁ with supply := supply }).Greets := by
      refine @World.Greets.greet t w _ (some data) h hnew hlt hgone ?_ ht' (hconnects₁.trans hconnects) ?_
      · exact congrArg (Event.wrote ⟨.handshakeReq, t, some data⟩ :: ·) (htrace₁.trans htrace)
      · exact (congrArg List.length htransports₁).trans hlength
    exact hgreet.mono (writesOn_aside (by simp)) (fun _ ht => ht) (List.Sublist.refl _) le_rfl

/-- **The result of a TCP connect.** -/
theorem World.Greets.onTcpConnect (hw : w.Greets) {i : ℕ} {req : ConnReq} (ok : Bool)
    (hi : w.connects[i]? = some (t, req)) (hok : deliverable w t ok = true) :
    (onTcpConnect cfg t req (uvStatus ok) { w with connects := w.connects.eraseIdx i }).Polite := by
  have hpolite := @enduring_polite cfg
  obtain ⟨hlt, hnew⟩ := hw.waiting _ (List.mem_of_getElem? hi)
  have hgone : ∀ c ∈ w.connects.eraseIdx i, c.1 ≠ t := by
    obtain ⟨hi', heq⟩ := List.getElem?_eq_some_iff.mp hi
    have hperm : (t :: (w.connects.eraseIdx i).map Prod.fst).Perm (w.connects.map Prod.fst) := by
      have herase := (List.getElem_cons_eraseIdx_perm hi').map Prod.fst
      rw [heq] at herase
      exact herase
    rintro c hc rfl
    exact (List.nodup_cons.mp (hperm.nodup_iff.mpr hw.nodup)).1 (List.mem_map_of_mem hc)
  have hpop : ({ w with connects := w.connects.eraseIdx i } : World).Greets :=
    hw.mono (fun _ => rfl) (fun _ ht => ht) (List.eraseIdx_sublist _ _) le_rfl
  rw [Libpomelo.onTcpConnect]
  split
  · exact hpolite.connectCb (hpolite.taken _ fun _ _ => hpop) req (-1)
  · cases ok with
    | false =>
      rw [if_pos (show uvStatus false = -1 from rfl)]
      refine hpolite.connectError (fun _ _ => ?_) (by decide) req
      exact hpop.mono (fun _ => rfl) (fun _ ht => ht) (List.Sublist.refl _)
        (length_closeSocket t w.transports).ge
    | true =>
      have hopen : w.transports[t]? ≠ some .closed := by simpa [deliverable] using hok
      rw [if_neg (show uvStatus true ≠ -1 by decide)]
      dsimp only
      rw [if_neg (by simpa [uvReadStart] using hopen)]
      have hlength : (transportStart t { w with
          connects := w.connects.eraseIdx i, transport := some t
          state := .connected }).transports.length = w.transports.length := by
        rw [transportStart]
        dsimp only
        split
        · exact List.length_set
        · rfl
      have hreq := @World.Greets.handshakeReq cfg t _ (transportStart t { w with
        connects := w.connects.eraseIdx i, transport := some t, state := .connected }) hpop hnew hlt
        hgone rfl rfl rfl hlength req
      split
      · next heq =>
        rw [heq] at hreq
        exact hreq.1 rfl
      · next heq =>
        rw [heq] at hreq
        exact hreq.2 rfl

/-- **`pc_connect`** gives the new transport the next number. -/
theorem World.Polite.pcConnect (hw : w.Polite) (cb : ConnectCb) : (pcConnect cb w).1.Polite := by
  have hcases := pcConnect_cases cb w
  generalize Libpomelo.pcConnect cb w = r at hcases ⊢
  cases hcases with
  | invalid => exact hw
  | refused => exact hw.same rfl rfl rfl (List.Sublist.refl _) le_rfl
  | crashed => exact fun hrun => absurd hrun (by simp [World.halt])
  | notConnected supply _ =>
    have hlength : w.transports.length ≤ (w.transports ++ [TransportState.inited]).length := by simp
    exact hw.same rfl rfl rfl (List.Sublist.refl _) hlength
  | launched supply _ =>
    refine hw.of_greets id (List.subset_cons_self _ _) fun hg => ?_
    exact hg.launch rfl rfl rfl rfl

theorem World.Polite.clientConnect (hw : w.Polite) (call : ConnectCall) :
    (clientConnect call w).Polite := by
  have hprepared : ∀ host supply, ({ w with host := host, supply := supply } : World).Polite :=
    fun _ _ => hw.same rfl rfl rfl (List.Sublist.refl _) le_rfl
  have hcases := clientConnect_cases call w
  generalize Libpomelo.clientConnect call w = w' at hcases ⊢
  cases hcases with
  | failed host supply => exact hprepared host supply
  | refused host supply w' hconn =>
    have hpolite := (hprepared host supply).pcConnect call.cb
    rw [hconn] at hpolite
    exact hpolite
  | started host supply w' hconn =>
    have hpolite := (hprepared host supply).pcConnect call.cb
    rw [hconn] at hpolite
    exact hpolite.same rfl rfl rfl (List.Sublist.refl _) le_rfl

theorem World.Polite.reconnectTimer (hw : w.Polite) : (clientReconnectTimerCb cfg w).Polite := by
  have hstop : ∀ w₁ : World, w₁.Polite →
      (w₁.andThen fun w => failWith cfg .reconnect { w with reconnecting := false }).Polite :=
    fun w₁ hw₁ => enduring_polite.moves (moves_attemptFailed w₁) hw₁
  rw [clientReconnectTimerCb]
  obtain ⟨supply, heq | ⟨-, heq⟩⟩ := reconnectAttempt_cases w
  · rw [heq]
    exact hstop _ (hw.same rfl rfl rfl (List.Sublist.refl _) le_rfl)
  · rw [heq]
    have hsupply : ({ w with supply := supply } : World).Polite :=
      hw.same rfl rfl rfl (List.Sublist.refl _) le_rfl
    have hconn := hsupply.pcConnect .reconnected
    generalize Libpomelo.pcConnect .reconnected { w with supply := supply } = r at hconn ⊢
    rcases r with ⟨w₁, _ | _⟩
    · exact hstop w₁ hconn
    · exact hconn

/-- **One turn.** -/
theorem Turn.polite {l : Label} (h : Turn cfg w l w') (hw : w.Polite) : w'.Polite := by
  have hpolite := @enduring_polite cfg
  -- the handlers of writes see a queue that is one shorter
  have hdone : ∀ {i : ℕ} {write : Write} {status : ℤ} {working listed : Bool},
      w.writes[i]? = some write →
      (write.cb = .handshakeReq ∨ write.cb = .handshakeAck ∨ write.cb = .heartbeatReq) →
      ({ w with writes := w.writes.eraseIdx i }.note
        (.writeDone write status working listed)).Polite :=
    fun hi hcb => hpolite.moves (moves_writeDone hi hcb _ _ _) hw
  cases h with
  | moves _ hm => exact hpolite.moves hm hw
  | read t _ _ hm =>
    have hstart : ({ w with reading := some t }.note (.read t)).Polite :=
      hw.of_greets id (List.subset_cons_self _ _) fun hg =>
        hg.mono (writesOn_aside (by simp)) (fun _ ht => ht) (List.Sublist.refl _) le_rfl
    exact (hpolite.moves hm hstart).same rfl rfl rfl (List.Sublist.refl _) le_rfl
  | tcpConnect i ok t req _ hi hok =>
    -- nothing is owed after a failure, or when nothing runs any more
    have hlinks : Links cfg w _ := links_onTcpConnect hi hok
    intro hrun hfine
    have hg := hw (hlinks.halted hrun) fun hmem => hfine (hlinks.trace_suffix.subset hmem)
    exact hg.onTcpConnect ok hi hok hrun hfine
  | handshakeReq i ok write working listed _ hi hcb =>
    exact hpolite.handshakeReqCb (hdone hi (.inl hcb)) _ _
  | handshakeAck i ok write working listed _ hi hcb =>
    refine hpolite.handshakeAckCb (hdone hi (.inr (.inl hcb))) fun _ _ => ?_
    refine (hdone hi (.inr (.inl hcb))).of_greets id (List.subset_cons_self _ _) fun hg => ?_
    exact hg.mono (writesOn_aside (by simp)) (fun _ ht => ht) (List.Sublist.refl _) le_rfl
  | reconnectTimer _ _ =>
    have hfired : ({ w with reconnectTimer := uvTimerFired w.reconnectTimer } : World).Polite :=
      hw.same rfl rfl rfl (List.Sublist.refl _) le_rfl
    exact hfired.reconnectTimer
  | connect call _ _ => exact hw.clientConnect call
  | loopEnd => exact hw.same rfl rfl rfl (List.Sublist.refl _) le_rfl
  | join =>
    refine hw.of_greets id (List.subset_cons_self _ _) fun hg => ?_
    exact hg.mono (writesOn_aside (by simp)) (fun _ ht => ht) (List.Sublist.refl _) le_rfl
  | joinNone => exact fun hrun => absurd hrun (by simp [World.halt])
  | tailEmit _ hm | tailExit _ hm _ =>
    exact (hpolite.moves hm hw).same rfl rfl rfl (List.Sublist.refl _) le_rfl
  | user pc _ hm _ => exact (hpolite.moves hm hw).same rfl rfl rfl (List.Sublist.refl _) le_rfl
  | free _ =>
    obtain ⟨w₁, hm, heq | heq⟩ := clientFree_moves cfg w
    · rw [heq]
      exact hpolite.moves hm hw
    · rw [heq]
      exact (hpolite.moves hm hw).same rfl rfl rfl (List.Sublist.refl _) le_rfl

theorem reach_polite {ok : World → List Bool × Label → World → Prop}
    (h : (clientLts cfg).Reach ok w) : w.Polite := by
  refine h.invariant (P := World.Polite) ?_ ?_
  · rintro _ ⟨reqId, files, -, rfl⟩ _ _
    have hnone : ∀ t, writesOn (World.init reqId files).trace t = [] := fun _ => rfl
    refine ⟨fun t => ?_, fun t ht => absurd ht (by simp [World.init]), ?_, List.nodup_nil, fun t _ => hnone t⟩
    · rw [hnone]
      exact greeted_nil
    · exact fun c hc => absurd hc (by simp [World.init])
  · intro w l w' hr hw hstep _
    refine (step_turn (reach_reading hr) hstep).polite ?_
    exact hw.same rfl rfl rfl (List.Sublist.refl _) le_rfl

end Greeting

/-! ## What the peer reads -/

section Peer

variable {cfg : Config} {w : World}

/-- The package of a write with data, as a pair of type and body. -/
def Write.IsPkg (write : Write) (p : ℕ × Bytes) : Prop :=
  p.1 = write.cb.pkgType ∧ p.2.length < pkgMaxBodyBytes ∧ write.data = pkgEncode [] p.1 p.2 ∧
    write.data ≠ none

theorem WriteCb.pkgType_lt : ∀ cb : WriteCb, cb.pkgType < 256
  | .handshakeReq => show pkgHandshake < 256 by decide
  | .handshakeAck => show pkgHandshakeAck < 256 by decide
  | .heartbeatReq => show pkgHeartbeat < 256 by decide
  | .request _ | .notify _ => show pkgData < 256 by decide

/-- An allocator that succeeds makes no difference to a package that was made. -/
theorem pkgEncode_of_some {ms : List Bool} {type : ℕ} {body data : Bytes}
    (h : pkgEncode ms type body = some data) : pkgEncode [] type body = some data := by
  rw [pkgEncode] at h ⊢
  split at h
  · exact absurd h (by simp)
  · split at h
    · next hlen _ =>
      rw [if_neg hlen, if_pos (show (malloc []).1 = true from rfl)]
      exact h
    · exact absurd h (by simp)

theorem isPkg_of_packs {write : Write} (h : write.cb.Packs write.data) (hdata : write.data ≠ none) :
    ∃ p, write.IsPkg p := by
  obtain ⟨supply, body, heq, hlen, -⟩ := h
  obtain ⟨data, hsome⟩ := Option.ne_none_iff_exists'.mp hdata
  have hencode := pkgEncode_of_some (heq.symm.trans hsome)
  exact ⟨(write.cb.pkgType, body), rfl, hlen, hsome.trans hencode.symm, hdata⟩

theorem pkgs_of_writes {writes : List Write} (h : ∀ write ∈ writes, ∃ p, write.IsPkg p) :
    ∃ pkgs, List.Forall₂ Write.IsPkg writes pkgs := by
  induction writes with
  | nil => exact ⟨[], .nil⟩
  | cons write writes ih =>
    rw [List.forall_mem_cons] at h
    obtain ⟨p, hp⟩ := h.1
    obtain ⟨pkgs, hpkgs⟩ := ih h.2
    exact ⟨p :: pkgs, .cons hp hpkgs⟩

/-- The bytes of the writes are the encoded packages. -/
theorem mapM_of_writes {writes : List Write} {pkgs : List (ℕ × Bytes)}
    (h : List.Forall₂ Write.IsPkg writes pkgs) :
    pkgs.mapM (fun p => pkgEncode [] p.1 p.2) = some (writes.filterMap Write.data) := by
  induction h with
  | nil => rfl
  | @cons write p writes pkgs hp _ ih =>
    obtain ⟨-, -, heq, hdata⟩ := hp
    obtain ⟨data, hsome⟩ := Option.ne_none_iff_exists'.mp hdata
    rw [List.mapM_cons, ← heq, hsome, ih, List.filterMap_cons_some hsome]
    rfl

theorem pkgs_lt {writes : List Write} {pkgs : List (ℕ × Bytes)}
    (h : List.Forall₂ Write.IsPkg writes pkgs) :
    ∀ p ∈ pkgs, p.1 < 256 ∧ p.2.length < pkgMaxBodyBytes := by
  induction h with
  | nil => exact fun p hp => absurd hp List.not_mem_nil
  | @cons write p writes pkgs hp _ ih =>
    refine List.forall_mem_cons.mpr ⟨⟨?_, hp.2.1⟩, ih⟩
    rw [hp.1]
    exact write.cb.pkgType_lt

/-- What is delivered for a part of the packages is that part of the writes. -/
theorem readAs_of_delivers {writes : List Write} {pkgs : List (ℕ × Bytes)} {calls : List PkgCall}
    (h : List.Forall₂ Write.IsPkg writes pkgs) (hcalls : Delivers calls pkgs) :
    List.Forall₂ Write.ReadAs writes calls := by
  induction h generalizing calls with
  | nil =>
    cases hcalls
    exact .nil
  | cons hp _ ih =>
    cases hcalls with
    | cons hcall hcalls =>
      obtain ⟨htype, -, hbytes⟩ := hcall
      refine .cons ⟨htype.trans hp.1, ?_⟩ (ih hcalls)
      rw [hbytes, ← hp.1]
      exact hp.2.2.1

/-- **What the client puts on a wire.** In every run, as long as the program runs and no handshake
request failed, each connection starts with the one handshake request; every later write has
behind it what the protocol asks for; and a peer that has got any part of the bytes, in any pieces,
has read one package for each of the first writes, and among them for all that have arrived. -/
theorem wire_conforms (h : Reachable cfg w) (hrun : w.halted = none)
    (hfine : .failure .handshakeReq ∉ w.trace) (t : ℕ) :
    Greeted (writesOn w.trace t) ∧
    (∀ newer write older, w.trace = newer ++ .wrote write :: older → write.Follows older) ∧
    ∀ writes, writes <+: writesOn w.trace t → (∀ write ∈ writes, write.data ≠ none) →
      ∀ chunks : List Bytes, chunks.flatten <+: (writes.filterMap Write.data).flatten →
        ∃ s got, feedChunks [] ⟨pkgParserNew, []⟩ chunks =
            some (List.replicate chunks.length 0, s) ∧
          got <+: writes ∧ List.Forall₂ Write.ReadAs got s.calls ∧
          ∀ whole, whole <+: writes →
            (whole.filterMap Write.data).flatten <+: chunks.flatten → whole <+: got := by
  have hordered := (kept_speaks.reach h).2.ordered
  refine ⟨(reach_polite h hrun hfine).greeted t,
    fun newer write older hsplit => (hordered newer write older hsplit).1, ?_⟩
  intro writes hwrites hdata chunks hchunks
  have hispkg : ∀ write ∈ writes, ∃ p, write.IsPkg p := by
    intro write hmem
    obtain ⟨hwrote, -⟩ := mem_writesOn (hwrites.subset hmem)
    obtain ⟨newer, older, hsplit⟩ := List.append_of_mem hwrote
    exact isPkg_of_packs (hordered newer write older hsplit).2 (hdata write hmem)
  obtain ⟨pkgs, hpkgs⟩ := pkgs_of_writes hispkg
  obtain ⟨s, got, hfeed, hgot, hcalls, hwhole⟩ :=
    feedChunks_part (pkgs_lt hpkgs) (mapM_of_writes hpkgs) hchunks
  have htaken : List.Forall₂ Write.IsPkg (writes.take got.length) got := by
    have htake := List.forall₂_take got.length hpkgs
    rwa [← List.prefix_iff_eq_take.mp hgot] at htake
  refine ⟨s, writes.take got.length, hfeed, List.take_prefix _ _, readAs_of_delivers htaken hcalls, ?_⟩
  intro whole hprefix harrived
  have hpart : List.Forall₂ Write.IsPkg whole (pkgs.take whole.length) := by
    have htake := List.forall₂_take whole.length hpkgs
    rwa [← List.prefix_iff_eq_take.mp hprefix] at htake
  have hfits := hwhole _ _ (List.take_prefix _ _) (mapM_of_writes hpart) harrived
  refine List.prefix_of_prefix_length_le hprefix (List.take_prefix _ _) ?_
  have hlength := hfits.length_le
  rw [← hpart.length_eq] at hlength
  rw [htaken.length_eq]
  exact hlength

/-- The handshake request could not be sent. -/
def Event.ungreeted : Event → Bool
  | .failure .handshakeReq => true
  | _ => false

/-- The handshake and a request go over the first connection. -/
theorem wire_conforms_answeredRun :
    ∃ w, runSteps (plainConfig false) answeredRun plainInit = some w ∧
      (writesOn w.trace 0).map (fun write => write.cb.pkgType) =
        [pkgHandshake, pkgHandshakeAck, pkgData] ∧
      Greeted (writesOn w.trace 0) := by
  have hwire : ∃ w, runSteps (plainConfig false) answeredRun plainInit = some w ∧
      (writesOn w.trace 0).map (fun write => write.cb.pkgType) =
        [pkgHandshake, pkgHandshakeAck, pkgData] ∧ w.halted = none ∧
      w.trace.any Event.ungreeted = false := ⟨_, rfl, rfl, rfl, rfl⟩
  obtain ⟨w, hwrun, htypes, hrun, hgreeted⟩ := hwire
  have hfine : .failure .handshakeReq ∉ w.trace :=
    fun hmem => absurd rfl (List.any_eq_false.mp hgreeted _ hmem)
  exact ⟨w, hwrun, htypes, (wire_conforms (reachable_of_run hwrun) hrun hfine 0).1⟩

end Peer

end Libpomelo
