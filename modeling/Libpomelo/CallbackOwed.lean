import Libpomelo.CallbackStatus

/-!
# No callback is forgotten

What the library accepts it owes a callback. A notify is on its way to the loop, or its write is
queued, or its callback ran, and always exactly one of these (`World.Accounts`). A request stays
with the client longer: after its write it waits in the request map for the response. It is
nowhere to be found only if its write succeeded while it was not in the map (`World.Owes`), which
is what a failed `pc_map_set` leads to.

When the worker has ended nothing is on its way any more, and freeing the client empties the map;
so every notify accepted by a client that was destroyed is called back once, and every request is
called back.
-/

namespace Libpomelo

/-! ## Notifies -/

/-- The event is a call of the callback of this notify. -/
def Event.callsNotify (serial : ℕ) : Event → Bool
  | .notifyCb s _ => s = serial
  | _ => false

/-- It is the notify with this serial. -/
def TcpReq.notifies (serial : ℕ) (req : TcpReq) : Bool := req.type = .notify && req.serial = serial

/-- The event accepts the notify. -/
def Event.acceptsNotify (serial : ℕ) : Event → Bool
  | .accepted req => req.notifies serial
  | _ => false

/-- The event accepts the request or notify with this serial. -/
def Event.accepts (serial : ℕ) : Event → Bool
  | .accepted req => req.serial = serial
  | _ => false

/-- The write is that of this notify. -/
def Write.notifies (serial : ℕ) (write : Write) : Bool :=
  match write.cb with
  | .notify req => req.serial = serial
  | _ => false

/-- How often the callback of a notify ran. -/
def notifyCalls (trace : List Event) (serial : ℕ) : ℕ := trace.countP (Event.callsNotify serial)

/-- How often a notify was accepted. -/
def notifiesAccepted (trace : List Event) (serial : ℕ) : ℕ :=
  trace.countP (Event.acceptsNotify serial)

/-- The async of a notify, and its write. -/
def World.notifiesPending (w : World) (serial : ℕ) : ℕ :=
  w.asyncs.countP (TcpReq.notifies serial) + w.writes.countP (Write.notifies serial)

/-- **The account of the notifies**: what was accepted is pending or was called back. -/
def World.Accounts (w : World) : Prop :=
  ∀ serial, w.notifiesPending serial + notifyCalls w.trace serial =
    notifiesAccepted w.trace serial

section Notifies

variable {cfg : Config} {begins : Bool} {w w' : World} {e : Event}

theorem countP_cons_toNat {α : Type} (p : α → Bool) (x : α) (l : List α) :
    (x :: l).countP p = l.countP p + (p x).toNat := by
  rw [List.countP_cons]
  cases p x <;> rfl

theorem countP_concat_toNat {α : Type} (p : α → Bool) (l : List α) (x : α) :
    (l ++ [x]).countP p = l.countP p + (p x).toNat := by
  rw [List.countP_append, countP_cons_toNat, List.countP_nil, Nat.zero_add]

theorem countP_eraseIdx_toNat {α : Type} (p : α → Bool) {l : List α} {i : ℕ} {x : α}
    (h : l[i]? = some x) : (l.eraseIdx i).countP p + (p x).toNat = l.countP p := by
  rw [← countP_eraseIdx_add p h]
  cases p x <;> rfl

theorem notifyCalls_cons (e : Event) (trace : List Event) (serial : ℕ) :
    notifyCalls (e :: trace) serial = notifyCalls trace serial + (e.callsNotify serial).toNat :=
  countP_cons_toNat ..

theorem notifiesAccepted_cons (e : Event) (trace : List Event) (serial : ℕ) :
    notifiesAccepted (e :: trace) serial =
      notifiesAccepted trace serial + (e.acceptsNotify serial).toNat :=
  countP_cons_toNat ..

theorem World.Accounts.of_eq (h : w.Accounts) (hpending : ∀ serial,
    w'.notifiesPending serial = w.notifiesPending serial) (htrace : w'.trace = w.trace) :
    w'.Accounts := by
  intro serial
  rw [hpending, htrace]
  exact h serial

/-- An event that is not about notifies. -/
theorem World.Accounts.note (h : w.Accounts) (hcalls : ∀ serial, e.callsNotify serial = false)
    (haccepts : ∀ serial, e.acceptsNotify serial = false) : (w.note e).Accounts := by
  intro serial
  have hold := h serial
  rw [World.note, notifyCalls_cons, notifiesAccepted_cons, hcalls, haccepts]
  exact hold

/-- A request or notify gets on its way. -/
theorem World.Accounts.accept (h : w.Accounts) (req : TcpReq) :
    ({ w with asyncs := w.asyncs ++ [req], nextSerial := w.nextSerial + 1 }.note
      (.accepted req)).Accounts := by
  intro serial
  have hold := h serial
  simp only [World.notifiesPending] at hold
  simp only [World.note, World.notifiesPending, notifyCalls_cons, notifiesAccepted_cons,
    countP_concat_toNat, Event.callsNotify, Event.acceptsNotify, Bool.toNat_false]
  omega

/-- The async of a request leaves. -/
theorem World.Accounts.popRequest {i : ℕ} {req : TcpReq} (h : w.Accounts)
    (hi : w.asyncs[i]? = some req) (htype : req.type = .request) :
    { w with asyncs := w.asyncs.eraseIdx i }.Accounts := by
  refine h.of_eq (fun serial => ?_) rfl
  have hmove := countP_eraseIdx_toNat (TcpReq.notifies serial) hi
  have hno : req.notifies serial = false := by simp [TcpReq.notifies, htype]
  rw [hno] at hmove
  exact congrArg (· + w.writes.countP (Write.notifies serial)) hmove

/-- The async of a notify ends in its callback. -/
theorem World.Accounts.asyncNotifyCb {i : ℕ} {req : TcpReq} (h : w.Accounts)
    (hi : w.asyncs[i]? = some req) (htype : req.type = .notify) (status : ℤ) :
    ({ w with asyncs := w.asyncs.eraseIdx i }.note (.notifyCb req.serial status)).Accounts := by
  intro serial
  have hold := h serial
  have hmove := countP_eraseIdx_toNat (TcpReq.notifies serial) hi
  simp only [World.notifiesPending] at hold
  simp only [World.note, World.notifiesPending, notifyCalls_cons, notifiesAccepted_cons,
    Event.callsNotify, Event.acceptsNotify, TcpReq.notifies, htype, decide_true, Bool.true_and,
    Bool.toNat_false] at hmove ⊢
  omega

/-- It ends in a write. -/
theorem World.Accounts.sendNotify {i t : ℕ} {data : Option Bytes} {req : TcpReq} (h : w.Accounts)
    (hi : w.asyncs[i]? = some req) (htype : req.type = .notify) :
    (queueWrite (.notify req) t data { w with asyncs := w.asyncs.eraseIdx i }).Accounts := by
  intro serial
  have hold := h serial
  have hmove := countP_eraseIdx_toNat (TcpReq.notifies serial) hi
  simp only [World.notifiesPending] at hold
  simp only [queueWrite, World.note, World.notifiesPending, notifyCalls_cons, notifiesAccepted_cons,
    Event.callsNotify, Event.acceptsNotify, countP_concat_toNat, Write.notifies, TcpReq.notifies,
    htype, decide_true, Bool.true_and, Bool.toNat_false] at hmove ⊢
  omega

/-- A write that is none of a notify is queued. -/
theorem World.Accounts.queueWrite {cb : WriteCb} {t : ℕ} {data : Option Bytes} (h : w.Accounts)
    (hcb : ∀ req, cb ≠ .notify req) : (queueWrite cb t data w).Accounts := by
  have hno : ∀ serial, Write.notifies serial ⟨cb, t, data⟩ = false := by
    intro serial
    cases cb with
    | notify req => exact absurd rfl (hcb req)
    | _ => rfl
  intro serial
  have hold := h serial
  simp only [World.notifiesPending] at hold
  simp only [Libpomelo.queueWrite, World.note, World.notifiesPending, notifyCalls_cons,
    notifiesAccepted_cons, Event.callsNotify, Event.acceptsNotify, countP_concat_toNat, hno,
    Bool.toNat_false, Nat.add_zero]
  exact hold

/-- A write that is none of a notify is done. -/
theorem World.Accounts.popWrite {i : ℕ} {write : Write} (h : w.Accounts)
    (hi : w.writes[i]? = some write) (hcb : ∀ req, write.cb ≠ .notify req) :
    { w with writes := w.writes.eraseIdx i }.Accounts := by
  refine h.of_eq (fun serial => ?_) rfl
  have hno : write.notifies serial = false := by
    rw [Write.notifies]
    split
    · next req hreq => exact absurd hreq (hcb req)
    · rfl
  have hmove := countP_eraseIdx_toNat (Write.notifies serial) hi
  rw [hno] at hmove
  exact congrArg (w.asyncs.countP (TcpReq.notifies serial) + ·) hmove

/-- The write of a notify is done. -/
theorem World.Accounts.notifyDone {i : ℕ} {write : Write} {req : TcpReq} {done : ℤ}
    {working listed : Bool} (h : w.Accounts) (hi : w.writes[i]? = some write)
    (hcb : write.cb = .notify req) (status : ℤ) :
    (({ w with writes := w.writes.eraseIdx i }.note (.writeDone write done working listed)).note
      (.notifyCb req.serial status)).Accounts := by
  intro serial
  have hold := h serial
  have hmove := countP_eraseIdx_toNat (Write.notifies serial) hi
  simp only [World.notifiesPending] at hold
  simp only [World.note, World.notifiesPending, notifyCalls_cons, notifiesAccepted_cons,
    Event.callsNotify, Event.acceptsNotify, Write.notifies, hcb, Bool.toNat_false] at hmove ⊢
  omega

/-- **A move keeps the account of the notifies.** -/
theorem Move.accounts (h : Move cfg begins w w') (hrun : w'.halted = none) (hw : w.Accounts) :
    w'.Accounts := by
  cases h with
  | inert w' hin _ =>
    rw [hin.eq]
    exact hw
  | shook w' _ _ hin _ _ _ =>
    rw [hin.eq]
    exact World.Accounts.note hw (fun _ => rfl) fun _ => rfl
  | halt => exact absurd hrun (by simp [World.halt])
  | note e hq =>
    cases e with
    | accepted | notifyCb => exact absurd hq id
    | _ => exact hw.note (fun _ => rfl) fun _ => rfl
  | accept req => exact hw.accept req
  | queueWrite cb t data _ hdue _ =>
    apply hw.queueWrite
    rintro req rfl
    exact hdue
  | popWrite i write hi hsettled =>
    apply hw.popWrite hi
    intro req hcb
    rw [hcb] at hsettled
    exact hsettled
  | popAsync i req hi hwhy => exact hw.popRequest hi (hwhy.resolve_left (not_not.mpr hrun)).1
  | asyncRequestCb i req status hi _ htype =>
    exact (hw.popRequest hi htype).note (fun _ => rfl) fun _ => rfl
  | asyncNotifyCb i req status hi _ htype => exact hw.asyncNotifyCb hi htype status
  | sendNotify i t data req hi _ _ _ htype => exact hw.sendNotify hi htype
  | enlist i t data req hi _ _ _ _ htype => exact hw.popRequest hi htype
  | notifyDone i write req done working listed status hi hcb _ => exact hw.notifyDone hi hcb status
  | close =>
    have hstop : (w.note (.stop w.state w.reconnecting)).Accounts :=
      hw.note (fun _ => rfl) fun _ => rfl
    exact World.Accounts.note hstop (fun _ => rfl) fun _ => rfl
  | release | respond | orphanCb | lateCb | beginReset | reset | disconnect | closeHandled =>
    exact World.Accounts.note hw (fun _ => rfl) fun _ => rfl
  | _ => exact hw

theorem Link.accounts (h : Link cfg w w') (hrun : w'.halted = none) (hw : w.Accounts) :
    w'.Accounts := by
  cases h with
  | move hm => exact hm.accounts hrun hw
  | greet => exact hw.queueWrite (by simp)
  | launch | connectCb | acked => exact World.Accounts.note hw (fun _ => rfl) fun _ => rfl
  | _ => exact hw

end Notifies

theorem kept_accounts {cfg : Config} : Kept cfg fun w => w.halted = none → w.Accounts where
  init _ _ _ _ := rfl
  link _ _ hw hlink hrun := hlink.accounts hrun (hw (hlink.halted hrun))
  threads _ _ _ _ hw := hw
  start _ _ hw _ _ hrun := World.Accounts.note (hw hrun) (fun _ => rfl) fun _ => rfl
  finish _ hw := hw
  loopEnd _ hw _ := hw

/-! ## Requests -/

/-- The requests whose writes are queued or done were accepted, and so were those in the map. -/
structure World.Sorted (w : World) : Prop where
  /-- writes in the queue -/
  writes : ∀ write ∈ w.writes, ∀ req, write.cb = .request req →
    .accepted req ∈ w.trace ∧ req.type = .request
  /-- writes that are done -/
  done : ∀ write status working listed req, .writeDone write status working listed ∈ w.trace →
    write.cb = .request req → .accepted req ∈ w.trace ∧ req.type = .request
  /-- the map -/
  listed : ∀ id req, (id, req) ∈ w.requests → req.type = .request

section Sorted

variable {cfg : Config} {begins : Bool} {w w' : World} {e : Event}

/-- The event completes no write. -/
def Event.Aside (e : Event) : Prop :=
  ∀ write status working listed, e ≠ .writeDone write status working listed

theorem World.Sorted.mono (h : w.Sorted) (hwrites : w'.writes ⊆ w.writes)
    (hrequests : w'.requests ⊆ w.requests) (htrace : w'.trace = w.trace) : w'.Sorted := by
  refine ⟨fun write hmem req hcb => ?_, fun write status working listed req hmem hcb => ?_,
    fun id req hmem => h.listed id req (hrequests hmem)⟩
  · rw [htrace]
    exact h.writes write (hwrites hmem) req hcb
  · rw [htrace] at hmem ⊢
    exact h.done write status working listed req hmem hcb

/-- A completion has to be of a write in the queue. -/
theorem World.Sorted.note (h : w.Sorted) (he : ∀ write status working listed req,
    e = .writeDone write status working listed → write.cb = .request req →
      .accepted req ∈ w.trace ∧ req.type = .request) : (w.note e).Sorted := by
  refine ⟨fun write hmem req hcb => ?_, fun write status working listed req hmem hcb => ?_, h.listed⟩
  · obtain ⟨haccepted, htype⟩ := h.writes write hmem req hcb
    exact ⟨List.mem_cons_of_mem _ haccepted, htype⟩
  · have hold : .accepted req ∈ w.trace ∧ req.type = .request := by
      rcases List.mem_cons.mp hmem with heq | hold
      · exact he write status working listed req heq.symm hcb
      · exact h.done write status working listed req hold hcb
    exact ⟨List.mem_cons_of_mem _ hold.1, hold.2⟩

/-- Less is queued or listed, and another event is noted. -/
theorem World.Sorted.aside (h : w.Sorted) (he : e.Aside) (hwrites : w'.writes ⊆ w.writes)
    (hrequests : w'.requests ⊆ w.requests) (htrace : w'.trace = e :: w.trace) : w'.Sorted := by
  have hnote : (w.note e).Sorted :=
    h.note fun write status working listed _ heq => absurd heq (he write status working listed)
  exact hnote.mono hwrites hrequests htrace

theorem World.Sorted.queueWrite {cb : WriteCb} {t : ℕ} {data : Option Bytes} (h : w.Sorted)
    (hcb : ∀ req, cb = .request req → .accepted req ∈ w.trace ∧ req.type = .request) :
    (queueWrite cb t data w).Sorted := by
  have hnote : (w.note (.wrote ⟨cb, t, data⟩)).Sorted :=
    h.aside (fun _ _ _ _ => by simp) (List.Subset.refl _) (List.Subset.refl _) rfl
  refine ⟨fun write hmem req hwrite => ?_, hnote.done, hnote.listed⟩
  rcases List.mem_append.mp hmem with hold | hnew
  · exact hnote.writes write hold req hwrite
  · obtain rfl := List.mem_singleton.mp hnew
    obtain ⟨haccepted, htype⟩ := hcb req hwrite
    exact ⟨List.mem_cons_of_mem _ haccepted, htype⟩

theorem Move.sorted (h : Move cfg begins w w') (hfiled : w.Filed) (hw : w.Sorted) : w'.Sorted := by
  cases h with
  | inert w' hin _ =>
    rw [hin.eq]
    exact hw.mono (List.Subset.refl _) (List.Subset.refl _) rfl
  | shook w' _ _ hin _ _ _ =>
    rw [hin.eq]
    exact hw.aside (fun _ _ _ _ => by simp) (List.Subset.refl _) (List.Subset.refl _) rfl
  | note e hq =>
    refine hw.note fun write status working listed req heq hcb => ?_
    subst heq
    exact hw.writes write hq req hcb
  | queueWrite cb t data _ hdue _ =>
    apply hw.queueWrite
    rintro req rfl
    exact ⟨hfiled.accepted req hdue.1, hdue.2.2⟩
  | sendNotify i t data req =>
    have hpop : { w with asyncs := w.asyncs.eraseIdx i }.Sorted :=
      hw.mono (List.Subset.refl _) (List.Subset.refl _) rfl
    exact hpop.queueWrite (by simp)
  | popWrite i => exact hw.mono (List.eraseIdx_sublist _ _).subset (List.Subset.refl _) rfl
  | enlist i t data req _ _ _ _ _ htype =>
    refine ⟨hw.writes, hw.done, fun id r hmem => ?_⟩
    rcases List.mem_append.mp hmem with hold | hnew
    · exact hw.listed id r hold
    · obtain ⟨-, rfl⟩ := Prod.mk.inj (List.mem_singleton.mp hnew)
      exact htype
  | unlink => exact hw.mono (List.Subset.refl _) List.eraseP_subset rfl
  | lateCb =>
    exact hw.aside (fun _ _ _ _ => by simp) (List.Subset.refl _) List.eraseP_subset rfl
  | release id req before after hsplit =>
    exact hw.aside (fun _ _ _ _ => by simp) (List.Subset.refl _) (sub_of_split hsplit) rfl
  | respond t raw rest req before after hsplit =>
    exact hw.aside (fun _ _ _ _ => by simp) (List.Subset.refl _) (sub_of_split hsplit) rfl
  | notifyDone i write req done working listed status hi hcb _ =>
    have hdone : ({ w with writes := w.writes.eraseIdx i }.note
        (.writeDone write done working listed)).Sorted := by
      have hpop : { w with writes := w.writes.eraseIdx i }.Sorted :=
        hw.mono (List.eraseIdx_sublist _ _).subset (List.Subset.refl _) rfl
      refine hpop.note fun write' _ _ _ req' heq hcb' => ?_
      obtain ⟨rfl, -⟩ := Event.writeDone.inj heq
      exact absurd (hcb.symm.trans hcb') (by simp)
    exact hdone.aside (fun _ _ _ _ => by simp) (List.Subset.refl _) (List.Subset.refl _) rfl
  | close =>
    have hstop : (w.note (.stop w.state w.reconnecting)).Sorted :=
      hw.aside (fun _ _ _ _ => by simp) (List.Subset.refl _) (List.Subset.refl _) rfl
    exact hstop.aside (fun _ _ _ _ => by simp) (List.Subset.refl _) (List.Subset.refl _) rfl
  | accept | asyncRequestCb | asyncNotifyCb | orphanCb | beginReset | reset | disconnect
  | closeHandled =>
    exact hw.aside (fun _ _ _ _ => by simp) (List.Subset.refl _) (List.Subset.refl _) rfl
  | _ => exact hw.mono (List.Subset.refl _) (List.Subset.refl _) rfl

theorem Link.sorted (h : Link cfg w w') (hfiled : w.Filed) (hw : w.Sorted) : w'.Sorted := by
  cases h with
  | move hm => exact hm.sorted hfiled hw
  | greet => exact hw.queueWrite (by simp)
  | launch | connectCb | acked =>
    exact hw.aside (fun _ _ _ _ => by simp) (List.Subset.refl _) (List.Subset.refl _) rfl
  | _ => exact hw.mono (List.Subset.refl _) (List.Subset.refl _) rfl

end Sorted

/-! ## What is owed to a request -/

/-- The request that an event accepts. -/
def Event.acceptedRequest : Event → Option TcpReq
  | .accepted req => if req.type = .request then some req else none
  | _ => none

/-- No two requests were accepted with one id, as long as the counter does not come round. -/
def IdsDistinct (trace : List Event) : Prop :=
  ((trace.filterMap Event.acceptedRequest).map TcpReq.id).Nodup

instance (trace : List Event) : Decidable (IdsDistinct trace) := by
  unfold IdsDistinct
  infer_instance

theorem IdsDistinct.eq {trace : List Event} {req req' : TcpReq} (h : IdsDistinct trace)
    (hreq : .accepted req ∈ trace) (hreq' : .accepted req' ∈ trace) (htype : req.type = .request)
    (htype' : req'.type = .request) (hid : req.id = req'.id) : req = req' := by
  have hmem : ∀ {r : TcpReq}, .accepted r ∈ trace → r.type = .request →
      r ∈ trace.filterMap Event.acceptedRequest :=
    fun haccepted hrequest => List.mem_filterMap.mpr ⟨_, haccepted, if_pos hrequest⟩
  exact List.inj_on_of_nodup_map h (hmem hreq htype) (hmem hreq' htype') hid

theorem IdsDistinct.older {older newer : List Event} (h : IdsDistinct newer)
    (hsuffix : older <:+ newer) : IdsDistinct older :=
  ((hsuffix.sublist.filterMap Event.acceptedRequest).map TcpReq.id).nodup h

/-- **Where a request is**: called back, on its way to the loop, in the map, or in a write; or its
write succeeded while it was not in the map. -/
inductive World.Owes (w : World) (serial : ℕ) : Prop where
  /-- it was called back -/
  | called (status : ℤ) : .requestCb serial status ∈ w.trace → w.Owes serial
  /-- it is on its way to the loop -/
  | async (req : TcpReq) : req ∈ w.asyncs → req.type = .request → req.serial = serial →
      w.Owes serial
  /-- it waits for its response -/
  | listed (id : ℕ) (req : TcpReq) : (id, req) ∈ w.requests → req.serial = serial → w.Owes serial
  /-- it is being written -/
  | writing (write : Write) (req : TcpReq) : write ∈ w.writes → write.cb = .request req →
      req.serial = serial → w.Owes serial
  /-- it was written, and not in the map -/
  | missed (write : Write) (req : TcpReq) : write.cb = .request req → req.serial = serial →
      .writeDone write 0 true false ∈ w.trace → w.Owes serial

/-- Each accepted request is somewhere. -/
def World.Remembers (w : World) : Prop :=
  ∀ req, .accepted req ∈ w.trace → req.type = .request → w.Owes req.serial

section Owes

variable {cfg : Config} {begins : Bool} {w w' : World} {e : Event}

/-- Nothing leaves its place. -/
theorem World.Owes.mono {serial : ℕ} (h : w.Owes serial) (hasyncs : w.asyncs ⊆ w'.asyncs)
    (hrequests : w.requests ⊆ w'.requests) (hwrites : w.writes ⊆ w'.writes)
    (htrace : w.trace ⊆ w'.trace) : w'.Owes serial := by
  cases h with
  | called status hmem => exact .called status (htrace hmem)
  | async req hmem htype hserial => exact .async req (hasyncs hmem) htype hserial
  | listed id req hmem hserial => exact .listed id req (hrequests hmem) hserial
  | writing write req hmem hcb hserial => exact .writing write req (hwrites hmem) hcb hserial
  | missed write req hcb hserial hmem => exact .missed write req hcb hserial (htrace hmem)

/-- What is in a list is what is taken out of it, or stays. -/
theorem mem_eraseIdx_or {α : Type} {l : List α} {i : ℕ} {x y : α} (hi : l[i]? = some x) (hy : y ∈ l) :
    y = x ∨ y ∈ l.eraseIdx i := by
  obtain ⟨hlt, rfl⟩ := List.getElem?_eq_some_iff.mp hi
  have hperm : (l[i] :: l.eraseIdx i).Perm l := List.getElem_cons_eraseIdx_perm hlt
  exact List.mem_cons.mp (hperm.mem_iff.mpr hy)

/-- An async leaves, and its request is somewhere else. -/
theorem World.Owes.popAsync {i serial : ℕ} {req : TcpReq} (h : w.Owes serial)
    (hi : w.asyncs[i]? = some req) (hasyncs : w'.asyncs = w.asyncs.eraseIdx i)
    (hrequests : w.requests ⊆ w'.requests) (hwrites : w.writes ⊆ w'.writes)
    (htrace : w.trace ⊆ w'.trace) (hreq : req.type = .request → w'.Owes req.serial) :
    w'.Owes serial := by
  cases h with
  | called status hmem => exact .called status (htrace hmem)
  | async r hmem htype hserial =>
    rcases mem_eraseIdx_or hi hmem with rfl | hstays
    · exact hserial ▸ hreq htype
    · exact .async r (hasyncs ▸ hstays) htype hserial
  | listed id r hmem hserial => exact .listed id r (hrequests hmem) hserial
  | writing write r hmem hcb hserial => exact .writing write r (hwrites hmem) hcb hserial
  | missed write r hcb hserial hmem => exact .missed write r hcb hserial (htrace hmem)

/-- A write leaves the queue, and its request is somewhere else. -/
theorem World.Owes.popWrite {i serial : ℕ} {write : Write} (h : w.Owes serial)
    (hi : w.writes[i]? = some write) (hasyncs : w'.asyncs = w.asyncs)
    (hrequests : w'.requests = w.requests) (hwrites : w'.writes = w.writes.eraseIdx i)
    (htrace : w.trace ⊆ w'.trace) (hreq : ∀ req, write.cb = .request req → w'.Owes req.serial) :
    w'.Owes serial := by
  cases h with
  | called status hmem => exact .called status (htrace hmem)
  | async r hmem htype hserial => exact .async r (hasyncs ▸ hmem) htype hserial
  | listed id r hmem hserial => exact .listed id r (hrequests ▸ hmem) hserial
  | writing write' r hmem hcb hserial =>
    rcases mem_eraseIdx_or hi hmem with rfl | hstays
    · exact hserial ▸ hreq r hcb
    · exact .writing write' r (hwrites ▸ hstays) hcb hserial
  | missed write' r hcb hserial hmem => exact .missed write' r hcb hserial (htrace hmem)

/-- Requests leave the map, and each is called back. -/
theorem World.Owes.unlist {serial : ℕ} (h : w.Owes serial) (hasyncs : w'.asyncs = w.asyncs)
    (hwrites : w'.writes = w.writes) (htrace : w.trace ⊆ w'.trace)
    (hrequests : ∀ id req, (id, req) ∈ w.requests →
      (id, req) ∈ w'.requests ∨ ∃ status, .requestCb req.serial status ∈ w'.trace) :
    w'.Owes serial := by
  cases h with
  | called status hmem => exact .called status (htrace hmem)
  | async r hmem htype hserial => exact .async r (hasyncs ▸ hmem) htype hserial
  | listed id r hmem hserial =>
    rcases hrequests id r hmem with hstays | ⟨status, hcalled⟩
    · exact .listed id r hstays hserial
    · exact .called status (hserial ▸ hcalled)
  | writing write r hmem hcb hserial => exact .writing write r (hwrites ▸ hmem) hcb hserial
  | missed write r hcb hserial hmem => exact .missed write r hcb hserial (htrace hmem)

/-- A settled write has its request somewhere. -/
theorem WriteCb.Settled.owes {req : TcpReq} (h : (WriteCb.request req).Settled w)
    (htrace : w'.trace = w.trace) (hrequests : w'.requests = w.requests) : w'.Owes req.serial := by
  rcases h with ⟨status, hcalled⟩ | ⟨write, listed, hcb, hdone, hlisted⟩
  · exact .called status (htrace ▸ hcalled)
  · cases listed with
    | true =>
      obtain ⟨id, r, hmem, hserial⟩ := hlisted rfl
      exact .listed id r (hrequests ▸ hmem) hserial
    | false => exact .missed write req hcb rfl (htrace ▸ hdone)

/-- No request is new, and each is somewhere as before. -/
theorem World.Remembers.step (h : w.Remembers)
    (hold : ∀ req, .accepted req ∈ w'.trace → .accepted req ∈ w.trace)
    (howes : ∀ serial, w.Owes serial → w'.Owes serial) : w'.Remembers :=
  fun req haccepted htype => howes _ (h req (hold req haccepted) htype)

theorem accepted_of_cons {req : TcpReq} {trace : List Event} (he : ∀ req, e ≠ .accepted req)
    (h : .accepted req ∈ e :: trace) : .accepted req ∈ trace := by
  rcases List.mem_cons.mp h with heq | hold
  · exact absurd heq.symm (he req)
  · exact hold

/-- An event that accepts nothing is noted, and nothing leaves its place. -/
theorem World.Remembers.aside (h : w.Remembers) (he : ∀ req, e ≠ .accepted req)
    (htrace : w'.trace = e :: w.trace) (hasyncs : w'.asyncs = w.asyncs)
    (hrequests : w'.requests = w.requests) (hwrites : w.writes ⊆ w'.writes) : w'.Remembers := by
  refine h.step (fun req hmem => accepted_of_cons he (htrace ▸ hmem)) fun serial howes => ?_
  refine howes.mono ?_ ?_ hwrites ?_
  · exact hasyncs ▸ List.Subset.refl _
  · exact hrequests ▸ List.Subset.refl _
  · exact htrace ▸ List.subset_cons_self _ _

/-- The same places, and the same history. -/
theorem World.Remembers.of_eq (h : w.Remembers) (htrace : w'.trace = w.trace)
    (hasyncs : w'.asyncs = w.asyncs) (hrequests : w'.requests = w.requests)
    (hwrites : w'.writes = w.writes) : w'.Remembers := by
  refine h.step (fun req hmem => htrace ▸ hmem) fun serial howes => ?_
  refine howes.mono ?_ ?_ ?_ ?_
  · exact hasyncs ▸ List.Subset.refl _
  · exact hrequests ▸ List.Subset.refl _
  · exact hwrites ▸ List.Subset.refl _
  · exact htrace ▸ List.Subset.refl _

theorem World.Remembers.accept (h : w.Remembers) (req : TcpReq) :
    ({ w with asyncs := w.asyncs ++ [req], nextSerial := w.nextSerial + 1 }.note
      (.accepted req)).Remembers := by
  intro req' haccepted htype
  rcases List.mem_cons.mp haccepted with heq | hold
  · obtain rfl := Event.accepted.inj heq
    exact .async req' (List.mem_append_right _ (List.mem_singleton_self _)) htype rfl
  · exact (h req' hold htype).mono (List.subset_append_left _ _) (List.Subset.refl _)
      (List.Subset.refl _) (List.subset_cons_self _ _)

/-- A request leaves the map with its callback. -/
theorem World.Remembers.release {id : ℕ} {req : TcpReq} {before after : List (ℕ × TcpReq)}
    (h : w.Remembers) (hsplit : w.requests = before ++ (id, req) :: after) (status : ℤ) :
    ({ w with requests := before ++ after }.note (.requestCb req.serial status)).Remembers := by
  refine h.step (fun _ => accepted_of_cons (by simp)) fun serial howes => ?_
  refine howes.unlist rfl rfl (List.subset_cons_self _ _) fun id' r hmem => ?_
  rw [hsplit] at hmem
  rcases List.mem_append.mp hmem with hbefore | htail
  · exact .inl (List.mem_append_left _ hbefore)
  · rcases List.mem_cons.mp htail with heq | hafter
    · obtain ⟨-, rfl⟩ := Prod.mk.inj heq
      exact .inr ⟨status, List.mem_cons_self ..⟩
    · exact .inl (List.mem_append_right _ hafter)

/-- What the completion of a late write takes from the map is its own request. -/
theorem unlisted_of_distinct {id : ℕ} {req r : TcpReq} (hids : IdsDistinct w.trace)
    (hfiled : w.Filed) (hsorted : w.Sorted) (hreq : .accepted req ∈ w.trace ∧ req.type = .request)
    (hmem : (id, r) ∈ w.requests) :
    (id, r) ∈ (requestsDel req.id w).requests ∨ r = req := by
  obtain ⟨hid, haccepted⟩ := hfiled.entry id r hmem
  by_cases heq : id = req.id
  · exact .inr (hids.eq haccepted hreq.1 (hsorted.listed id r hmem) hreq.2 (hid.trans heq))
  · left
    change (id, r) ∈ w.requests.eraseP fun kv => kv.1 = req.id
    exact (List.mem_eraseP_of_neg (by simpa using heq)).mpr hmem

theorem Move.remembers (h : Move cfg begins w w') (hrun : w'.halted = none)
    (hids : IdsDistinct w.trace) (hfiled : w.Filed) (hsorted : w.Sorted) (hw : w.Remembers) :
    w'.Remembers := by
  cases h with
  | inert w' hin _ =>
    rw [hin.eq]
    exact hw.of_eq rfl rfl rfl rfl
  | shook w' _ _ hin _ _ _ =>
    rw [hin.eq]
    exact hw.aside (by simp) rfl rfl rfl (List.Subset.refl _)
  | note e hq =>
    refine hw.aside ?_ rfl rfl rfl (List.Subset.refl _)
    rintro req rfl
    exact hq
  | accept req => exact hw.accept req
  | queueWrite => exact hw.aside (by simp) rfl rfl rfl (List.subset_append_left _ _)
  | popWrite i write hi hsettled =>
    refine hw.step (fun _ => id) fun serial howes => howes.popWrite hi rfl rfl rfl (List.Subset.refl _) ?_
    intro req hcb
    rw [hcb] at hsettled
    exact hsettled.owes rfl rfl
  | popAsync i req hi hwhy =>
    obtain ⟨-, write, hwrite, hcb⟩ := hwhy.resolve_left (not_not.mpr hrun)
    refine hw.step (fun _ => id) fun serial howes => ?_
    exact howes.popAsync hi rfl (List.Subset.refl _) (List.Subset.refl _) (List.Subset.refl _)
      fun _ => .writing write req hwrite hcb rfl
  | asyncRequestCb i req status hi _ _ =>
    refine hw.step (fun _ => accepted_of_cons (by simp)) fun serial howes => ?_
    exact howes.popAsync hi rfl (List.Subset.refl _) (List.Subset.refl _) (List.subset_cons_self _ _)
      fun _ => .called status (List.mem_cons_self ..)
  | asyncNotifyCb i req status hi _ htype =>
    refine hw.step (fun _ => accepted_of_cons (by simp)) fun serial howes => ?_
    exact howes.popAsync hi rfl (List.Subset.refl _) (List.Subset.refl _) (List.subset_cons_self _ _)
      fun hno => absurd (htype.symm.trans hno) (by simp)
  | sendNotify i t data req hi _ _ _ htype =>
    refine hw.step (fun _ => accepted_of_cons (by simp)) fun serial howes => ?_
    exact howes.popAsync hi rfl (List.Subset.refl _) (List.subset_append_left _ _)
      (List.subset_cons_self _ _) fun hno => absurd (htype.symm.trans hno) (by simp)
  | enlist i t data req hi _ _ _ _ _ =>
    refine hw.step (fun _ => id) fun serial howes => ?_
    exact howes.popAsync hi rfl (List.subset_append_left _ _) (List.Subset.refl _)
      (List.Subset.refl _) fun _ =>
        .listed req.id req (List.mem_append_right _ (List.mem_singleton_self _)) rfl
  | unlink id hhalted => exact absurd hrun hhalted
  | release id req before after hsplit => exact hw.release hsplit (-1)
  | respond t raw rest req before after hsplit => exact hw.release hsplit 0
  | lateCb write req hcb hdone =>
    refine hw.step (fun _ => accepted_of_cons (by simp)) fun serial howes => ?_
    refine howes.unlist rfl rfl (List.subset_cons_self _ _) fun id r hmem => ?_
    obtain hstays | rfl := unlisted_of_distinct hids hfiled hsorted
      (hsorted.done write _ _ _ req hdone hcb) hmem
    · exact .inl hstays
    · exact .inr ⟨-1, List.mem_cons_self ..⟩
  | notifyDone i write req done working listed status hi hcb _ =>
    have hdone : ({ w with writes := w.writes.eraseIdx i }.note
        (.writeDone write done working listed)).Remembers := by
      refine hw.step (fun _ => accepted_of_cons (by simp)) fun serial howes => ?_
      exact howes.popWrite hi rfl rfl rfl (List.subset_cons_self _ _)
        fun req' hcb' => absurd (hcb.symm.trans hcb') (by simp)
    exact hdone.aside (by simp) rfl rfl rfl (List.Subset.refl _)
  | close =>
    have hstop : (w.note (.stop w.state w.reconnecting)).Remembers :=
      hw.aside (by simp) rfl rfl rfl (List.Subset.refl _)
    exact hstop.aside (by simp) rfl rfl rfl (List.Subset.refl _)
  | orphanCb | beginReset | reset | disconnect | closeHandled =>
    exact hw.aside (by simp) rfl rfl rfl (List.Subset.refl _)
  | _ => exact hw.of_eq rfl rfl rfl rfl

theorem Link.remembers (h : Link cfg w w') (hrun : w'.halted = none) (hids : IdsDistinct w.trace)
    (hfiled : w.Filed) (hsorted : w.Sorted) (hw : w.Remembers) : w'.Remembers := by
  cases h with
  | move hm => exact hm.remembers hrun hids hfiled hsorted hw
  | greet => exact hw.aside (by simp) rfl rfl rfl (List.subset_append_left _ _)
  | launch | connectCb | acked => exact hw.aside (by simp) rfl rfl rfl (List.Subset.refl _)
  | _ => exact hw.of_eq rfl rfl rfl rfl

end Owes

/-! ## Serials -/

/-- A serial is given once. -/
def World.SerialsOnce (w : World) : Prop :=
  ∀ serial, w.trace.countP (Event.accepts serial) ≤ if serial < w.nextSerial then 1 else 0

section Serials

variable {cfg : Config} {begins : Bool} {w w' : World} {e : Event}

theorem World.SerialsOnce.note (h : w.SerialsOnce) (he : ∀ req, e ≠ .accepted req) :
    (w.note e).SerialsOnce := by
  intro serial
  have hno : e.accepts serial = false := by
    cases e with
    | accepted req => exact absurd rfl (he req)
    | _ => rfl
  have hold := h serial
  rw [World.note, countP_cons_toNat, hno]
  exact hold

theorem World.SerialsOnce.accept {req : TcpReq} (h : w.SerialsOnce) (hserial : req.serial = w.nextSerial) :
    ({ w with asyncs := w.asyncs ++ [req], nextSerial := w.nextSerial + 1 }.note
      (.accepted req)).SerialsOnce := by
  intro serial
  have hold := h serial
  change (Event.accepted req :: w.trace).countP (Event.accepts serial) ≤
    if serial < w.nextSerial + 1 then 1 else 0
  rw [countP_cons_toNat]
  simp only [Event.accepts]
  -- the new one is the one whose serial nobody had before
  by_cases hs : req.serial = serial
  · rw [if_neg (by omega)] at hold
    rw [if_pos (by omega)]
    simp only [hs, decide_true, Bool.toNat_true]
    omega
  · simp only [hs, decide_false, Bool.toNat_false, Nat.add_zero]
    split at hold
    · rw [if_pos (by omega)]
      exact hold
    · rw [if_neg (by omega)]
      exact hold

theorem Move.serialsOnce (h : Move cfg begins w w') (hw : w.SerialsOnce) : w'.SerialsOnce := by
  cases h with
  | inert w' hin _ =>
    rw [hin.eq]
    exact hw
  | shook w' _ _ hin _ _ _ =>
    rw [hin.eq]
    exact World.SerialsOnce.note hw (by simp)
  | note e hq =>
    apply hw.note
    rintro req rfl
    exact hq
  | accept req hserial => exact hw.accept hserial
  | notifyDone i write req done working listed =>
    have hdone : ({ w with writes := w.writes.eraseIdx i }.note
        (.writeDone write done working listed)).SerialsOnce := World.SerialsOnce.note hw (by simp)
    exact hdone.note (by simp)
  | close =>
    have hstop : (w.note (.stop w.state w.reconnecting)).SerialsOnce := hw.note (by simp)
    exact World.SerialsOnce.note hstop (by simp)
  | queueWrite | asyncRequestCb | asyncNotifyCb | sendNotify | release | respond | orphanCb | lateCb
  | beginReset | reset | disconnect | closeHandled => exact World.SerialsOnce.note hw (by simp)
  | _ => exact hw

theorem Link.serialsOnce (h : Link cfg w w') (hw : w.SerialsOnce) : w'.SerialsOnce := by
  cases h with
  | move hm => exact hm.serialsOnce hw
  | launch | greet | connectCb | acked => exact World.SerialsOnce.note hw (by simp)
  | _ => exact hw

end Serials

/-! ## Runs -/

section Runs

variable {cfg : Config} {w : World}

theorem kept_serialsOnce : Kept cfg World.SerialsOnce where
  init _ _ _ := Nat.zero_le _
  link _ _ hw hlink := hlink.serialsOnce hw
  threads _ _ _ _ hw := hw
  start _ _ hw _ _ := World.SerialsOnce.note hw (by simp)
  finish _ hw := hw
  loopEnd _ hw _ := hw

theorem kept_remembers : Kept cfg fun w => w.Accountable ∧ w.Sorted ∧
    (w.halted = none → IdsDistinct w.trace → w.Remembers) := by
  apply kept_accountable.and
  · intro reqId files
    refine ⟨⟨?_, ?_, ?_⟩, fun _ _ req hmem => absurd hmem List.not_mem_nil⟩
    · exact fun write hmem => absurd hmem List.not_mem_nil
    · exact fun write status working listed req hmem => absurd hmem List.not_mem_nil
    · exact fun id req hmem => absurd hmem List.not_mem_nil
  · rintro w w' ⟨-, hfiled, -⟩ ⟨hsorted, hw⟩ hlink
    refine ⟨hlink.sorted hfiled hsorted, fun hrun hids => ?_⟩
    have hids₀ : IdsDistinct w.trace := hids.older hlink.trace_suffix
    exact hlink.remembers hrun hids₀ hfiled hsorted (hw (hlink.halted hrun) hids₀)
  · rintro w supply worker user ⟨hsorted, hw⟩
    refine ⟨hsorted.mono (List.Subset.refl _) (List.Subset.refl _) rfl, fun hrun hids => ?_⟩
    exact (hw hrun hids).of_eq rfl rfl rfl rfl
  · rintro w t - ⟨hsorted, hw⟩ - -
    refine ⟨hsorted.aside (fun _ _ _ _ => by simp) (List.Subset.refl _) (List.Subset.refl _) rfl, ?_⟩
    intro hrun hids
    have hids₀ : IdsDistinct w.trace := hids.older (List.suffix_cons _ _)
    exact (hw hrun hids₀).aside (by simp) rfl rfl rfl (List.Subset.refl _)
  · rintro w ⟨hsorted, hw⟩
    refine ⟨hsorted.mono (List.Subset.refl _) (List.Subset.refl _) rfl, fun hrun hids => ?_⟩
    exact (hw hrun hids).of_eq rfl rfl rfl rfl
  · rintro w - ⟨hsorted, hw⟩ -
    refine ⟨hsorted.mono (List.Subset.refl _) (List.Subset.refl _) rfl, fun hrun hids => ?_⟩
    exact (hw hrun hids).of_eq rfl rfl rfl rfl

/-- An accepted notify was accepted once. -/
theorem notifiesAccepted_le (hw : w.SerialsOnce) (serial : ℕ) :
    notifiesAccepted w.trace serial ≤ 1 := by
  have hle : notifiesAccepted w.trace serial ≤ w.trace.countP (Event.accepts serial) := by
    refine List.countP_mono_left fun e _ haccepts => ?_
    cases e with
    | accepted req => exact (Bool.and_eq_true_iff.mp haccepts).2
    | _ => exact absurd haccepts (by simp [Event.acceptsNotify])
  refine hle.trans ((hw serial).trans ?_)
  split <;> decide

/-- **No callback is forgotten.** In every run, as long as the program runs: a notify that was
accepted was accepted once, and either is on its way to the loop, or its write is queued, or its
callback ran, and only one of these, once; and, if no two requests were accepted with one id, a
request that was accepted was called back, or is on its way to the loop, in the map or in a write,
or its write succeeded while it was not in the map. -/
theorem callbacks_owed (h : Reachable cfg w) (hrun : w.halted = none) :
    (∀ serial, w.notifiesPending serial + notifyCalls w.trace serial =
      notifiesAccepted w.trace serial ∧ notifiesAccepted w.trace serial ≤ 1) ∧
    (IdsDistinct w.trace → ∀ req, .accepted req ∈ w.trace → req.type = .request →
      w.Owes req.serial) := by
  refine ⟨fun serial => ⟨kept_accounts.reach h hrun serial, ?_⟩, fun hids => ?_⟩
  · exact notifiesAccepted_le (kept_serialsOnce.reach h) serial
  · exact (kept_remembers.reach h).2.2 hrun hids

/-- A notify that is written and a request that waits for its response. -/
def writtenRun : List (List Bool × Label) :=
  plainStart ++ [([], .call (.notify [97] (some (.obj [])))), ([], .call (.request [97] (some (.obj [])))),
    ([], .asyncWrite 0), ([], .asyncWrite 0), ([], .writeDone 0 true), ([], .writeDone 0 true)]

/-- The notify was called back, and the request is in the map. -/
theorem callbacks_owed_writtenRun :
    ∃ w, runSteps (plainConfig false) writtenRun plainInit = some w ∧
      w.requests.map (fun kv => kv.2.serial) = [1] ∧
      w.notifiesPending 0 + notifyCalls w.trace 0 = notifiesAccepted w.trace 0 ∧
      notifyCalls w.trace 0 = 1 ∧
      ∀ req, .accepted req ∈ w.trace → req.type = .request → w.Owes req.serial := by
  have hwritten : ∃ w, runSteps (plainConfig false) writtenRun plainInit = some w ∧
      w.requests.map (fun kv => kv.2.serial) = [1] ∧ notifyCalls w.trace 0 = 1 ∧
      w.halted = none ∧ IdsDistinct w.trace := ⟨_, rfl, rfl, rfl, rfl, by decide +kernel⟩
  obtain ⟨w, hwrun, hmap, hcalls, hrun, hids⟩ := hwritten
  obtain ⟨hnotifies, hrequests⟩ := callbacks_owed (reachable_of_run hwrun) hrun
  exact ⟨w, hwrun, hmap, (hnotifies 0).1, hcalls, hrequests hids⟩

end Runs

end Libpomelo
