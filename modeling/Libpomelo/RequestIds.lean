import Libpomelo.FeedStop
import Libpomelo.MessageRoundtrip

/-!
# The ids of requests

`pc_request` takes its id from a counter that all clients share and that wraps. The id
goes into the message, and it is the key under which the request is filed; a response
names the request it belongs to by nothing else.

The keys of the map are distinct whatever the counter does, and each request in the map
is filed under its own id (`World.Numbering`, kept by every turn). What the counter can
spoil is the message: with the id `0` the encoder takes a request for a notify. So the
ids do what they are for in every run in which no request is accepted with the id `0`
and no package of a request fails to be allocated (`requests_numbered`).
-/

namespace Libpomelo

/-- Type and id of the message in a package, as `pc_msg_decode` reads them. -/
def sentHeader (pkg : Bytes) : Option (MsgType × ℕ) :=
  match pkg.drop pkgHeadBytes with
  | [] => none
  | flag :: rest =>
    match MsgType.ofCode (flag.toNat >>> 1) with
    | none => none
    | some type =>
      if type.hasId then
        match msgDecodeId rest 0 0 with
        | .ok (id, _) => some (type, id)
        | .error _ => none
      else some (type, 0)

/-! ## What is written -/

/-- The body of a package. -/
theorem pkgEncode_drop {ms : List Bool} {type : ℕ} {data pkg : Bytes}
    (h : pkgEncode ms type data = some pkg) : pkg.drop pkgHeadBytes = data := by
  rw [pkgEncode] at h
  split at h
  · exact absurd h (by simp)
  · split at h
    · dsimp only at h
      split at h
      · next hempty =>
        rw [← Option.some.inj h, List.eq_nil_of_length_eq_zero hempty]
        rfl
      · rw [← Option.some.inj h]
        rfl
    · exact absurd h (by simp)

theorem sentHeader_eq {pkg rest : Bytes} {type : MsgType} {compressRoute : Bool} {id : ℕ}
    (hid : id < 2 ^ 32) (h : pkg.drop pkgHeadBytes = msgHeader type compressRoute id ++ rest) :
    sentHeader pkg = some (type, if type.hasId then id else 0) := by
  obtain ⟨flag, hflag, htype, -⟩ := msgDecodeFlag type compressRoute
  rw [sentHeader, h, msgHeader, hflag]
  cases hhas : type.hasId with
  | true =>
    simp only [if_true, List.cons_append, List.nil_append, htype, hhas, msgDecodeId_msgEncodeId hid]
  | false => simp [htype, hhas]

section Encode

variable {cfg : Config}

/-- A message starts with its header. -/
theorem defaultMsgEncodeCb_header {t : Tables} {ms ms' : List Bool} {reqId : ℕ} {route : Bytes}
    {msg : Option Json} {buf : MsgBuf}
    (h : defaultMsgEncodeCb cfg.dumps t ms reqId route msg = .ok (buf, ms')) :
    ∃ compressRoute rest, buf.base = msgHeader (encodeType reqId) compressRoute reqId ++ rest := by
  have hroute : (encodeType reqId).hasRoute = true := by
    rw [encodeType]
    split <;> rfl
  -- whatever the body, the encoder of messages begins with the header
  rw [defaultMsgEncodeCb] at h
  rcases hbody : encodeBody cfg.dumps t ms route msg with stop | ⟨body, ms₁⟩
  · rw [hbody] at h
    exact absurd h (by simp [bind, Except.bind])
  · rw [hbody] at h
    simp only [bind, Except.bind] at h
    rw [encodeRouted] at h
    split at h
    · next buf' ms₂ henc =>
      obtain ⟨rfl, -⟩ := Prod.mk.inj (Except.ok.inj h)
      split at henc
      · rw [msgEncodeCode_eq henc]
        exact ⟨true, _, rfl⟩
      · have hfirst := congrArg Prod.fst henc
        rw [msgEncodeRoute_eq hroute] at hfirst
        split at hfirst
        · rw [← Option.some.inj hfirst]
          exact ⟨false, _, rfl⟩
        · exact absurd hfirst (by simp)
    · exact absurd h (by simp)

/-- What is queued is the package of the message. -/
theorem sendStages_pkg {req : TcpReq} {tables : Tables} {transport : Option ℕ}
    {supply supply' : List Bool} {t : ℕ} {pkg : Option Bytes}
    (h : sendStages cfg req tables transport supply = (.queued t pkg, supply')) :
    ∃ buf supply₁, defaultMsgEncodeCb cfg.dumps tables supply req.id req.route req.msg =
      .ok (buf, supply₁) ∧ pkg = pkgEncode supply₁ pkgData buf.base := by
  unfold sendStages at h
  split at h
  · exact absurd h (by simp)
  · exact absurd h (by simp)
  · next buf supply₁ henc =>
    refine ⟨buf, supply₁, henc, ?_⟩
    dsimp only at h
    generalize (if pkgMaxBodyBytes ≤ buf.base.length then supply₁ else (malloc supply₁).2) =
      supply₂ at h
    split at h
    · exact absurd h (by simp)
    · split at h
      · exact absurd h (by simp)
      · split at h
        · exact absurd h (by simp)
        · split at h
          · exact absurd h (by simp)
          · split at h
            · simp only [Prod.mk.injEq, SendStage.queued.injEq] at h
              exact h.1.2.symm
            · exact absurd h (by simp)

/-- **A request with an id** is written as a `REQUEST` with that id. -/
theorem sentHeader_sendStages {req : TcpReq} {tables : Tables} {transport : Option ℕ}
    {supply supply' : List Bool} {t : ℕ} {pkg : Bytes} (hid : req.id < 2 ^ 32) (hne : req.id ≠ 0)
    (h : sendStages cfg req tables transport supply = (.queued t (some pkg), supply')) :
    sentHeader pkg = some (.request, req.id) := by
  obtain ⟨buf, supply₁, henc, hpkg⟩ := sendStages_pkg h
  obtain ⟨compressRoute, rest, hbase⟩ := defaultMsgEncodeCb_header henc
  have hbody := pkgEncode_drop hpkg.symm
  rw [hbase] at hbody
  have htype : encodeType req.id = .request := if_neg hne
  rw [sentHeader_eq hid hbody, htype]
  rfl

end Encode

/-! ## Every turn -/

/-- **The ids are in order**, but for what the id `0` spoils: the requests on their way to
the loop were accepted, what is written for a request is a `REQUEST` with its id, and the
map has one entry for each key, a request that was written and has the key for an id. -/
structure World.Numbering (w : World) : Prop where
  /-- requests on their way to the loop -/
  asyncs : ∀ req ∈ w.asyncs, .accepted req ∈ w.trace ∧ req.id < 2 ^ 32
  /-- requests that were written -/
  wrote : ∀ req t pkg, .wrote ⟨.request req, t, pkg⟩ ∈ w.trace →
    .accepted req ∈ w.trace ∧ req.type = .request ∧
      (req.id ≠ 0 → ∀ bytes, pkg = some bytes → sentHeader bytes = some (.request, req.id))
  /-- the keys of the map -/
  keys : (w.requests.map Prod.fst).Nodup
  /-- requests in the map -/
  listed : ∀ kv ∈ w.requests, kv.1 = kv.2.id ∧ ∃ t pkg, .wrote ⟨.request kv.2, t, pkg⟩ ∈ w.trace

section Numbering

variable {cfg : Config} {w w' : World}

/-- The map may lose entries, and the history may grow by events that are no writes of
requests. -/
theorem World.Numbering.mono (h : w.Numbering) {newer : List Event}
    (htrace : w'.trace = newer ++ w.trace)
    (hnewer : ∀ req t pkg, .wrote ⟨.request req, t, pkg⟩ ∉ newer)
    (hrequests : w'.requests.Sublist w.requests)
    (hasyncs : ∀ req ∈ w'.asyncs, req ∈ w.asyncs ∨ .accepted req ∈ w'.trace ∧ req.id < 2 ^ 32) :
    w'.Numbering := by
  have hmem : ∀ e ∈ w.trace, e ∈ w'.trace := by
    intro e he
    rw [htrace]
    exact List.mem_append_right _ he
  constructor
  · intro req hreq
    rcases hasyncs req hreq with hold | hnew
    · exact ⟨hmem _ (h.asyncs req hold).1, (h.asyncs req hold).2⟩
    · exact hnew
  · intro req t pkg hwrote
    rw [htrace] at hwrote
    rcases List.mem_append.mp hwrote with hnew | hold
    · exact absurd hnew (hnewer req t pkg)
    · obtain ⟨haccepted, hrest⟩ := h.wrote req t pkg hold
      exact ⟨hmem _ haccepted, hrest⟩
  · exact (hrequests.map Prod.fst).nodup h.keys
  · intro kv hkv
    obtain ⟨hkey, t, pkg, hwrote⟩ := h.listed kv (hrequests.subset hkv)
    exact ⟨hkey, t, pkg, hmem _ hwrote⟩

theorem Acts.numbering (h : Acts w w') (hw : w.Numbering) : w'.Numbering := by
  obtain ⟨newer, htrace, hspared⟩ := h.spares.trace
  refine hw.mono htrace (fun req t pkg hnew => ?_) h.spares.requests h.spares.asyncs
  exact absurd (hspared _ hnew) (by simp [Event.spared])

/-- An event that is no write of a request, and nothing else. -/
theorem World.Numbering.note {e : Event} (hw : w.Numbering) (htrace : w'.trace = e :: w.trace)
    (he : ∀ req t pkg, e ≠ .wrote ⟨.request req, t, pkg⟩) (hrequests : w'.requests = w.requests)
    (hasyncs : w'.asyncs = w.asyncs) : w'.Numbering := by
  have hone : w'.trace = [e] ++ w.trace := htrace
  refine hw.mono hone (fun req t pkg hnew => ?_) (hrequests ▸ List.Sublist.refl _)
    fun req hreq => .inl (hasyncs ▸ hreq)
  exact he req t pkg (List.mem_singleton.mp hnew).symm

/-- With distinct keys, deleting a key leaves the entries with other keys. -/
theorem eraseP_eq_filter {l : List (ℕ × TcpReq)} (h : (l.map Prod.fst).Nodup) (id : ℕ) :
    l.eraseP (fun kv => kv.1 = id) = l.filter fun kv => kv.1 ≠ id := by
  induction l with
  | nil => rfl
  | cons kv l ih =>
    rw [List.map_cons, List.nodup_cons] at h
    by_cases hk : kv.1 = id
    · rw [List.eraseP_cons_of_pos (by simpa using hk), List.filter_cons_of_neg (by simpa using hk)]
      refine (List.filter_eq_self.mpr fun kv' hkv' => ?_).symm
      have hne : kv'.1 ≠ id := by
        rintro hk'
        exact h.1 (by rw [hk, ← hk']; exact List.mem_map_of_mem hkv')
      simpa using hne
    · rw [List.eraseP_cons_of_neg (by simpa using hk), List.filter_cons_of_pos (by simpa using hk),
        ih h.2]

theorem World.Numbering.requestsDel_requests (hw : w.Numbering) (id : ℕ) :
    (requestsDel id w).requests = w.requests.filter fun kv => kv.1 ≠ id :=
  eraseP_eq_filter hw.keys id

/-- **A request is filed** in the place of another with its id. -/
theorem World.Numbering.requestsSet {req : TcpReq} {t : ℕ} {pkg : Option Bytes} (hw : w.Numbering)
    (hwrote : .wrote ⟨.request req, t, pkg⟩ ∈ w.trace) : (requestsSet cfg req w).Numbering := by
  rcases requestsSet_cases req w with hacts | ⟨supply, hacts⟩
  · exact hacts.numbering hw
  · refine hacts.numbering ⟨hw.asyncs, hw.wrote, ?_, ?_⟩
    · change (((requestsDel req.id w).requests ++ [(req.id, req)]).map Prod.fst).Nodup
      rw [hw.requestsDel_requests, List.map_append, List.nodup_append]
      refine ⟨(List.filter_sublist.map Prod.fst).nodup hw.keys, List.nodup_singleton _, ?_⟩
      intro key hkey key' hkey' hsame
      obtain ⟨kv, hkv, rfl⟩ := List.mem_map.mp hkey
      have hne : kv.1 ≠ req.id := by simpa using (List.mem_filter.mp hkv).2
      exact hne (hsame.trans (List.mem_singleton.mp hkey'))
    · intro kv hkv
      rcases List.mem_append.mp hkv with hold | hnew
      · exact hw.listed kv (List.mem_of_mem_eraseP hold)
      · rw [List.mem_singleton.mp hnew]
        exact ⟨rfl, t, pkg, hwrote⟩

/-- **A request is written and filed**, if it is. -/
theorem World.Numbering.request {req : TcpReq} (hw : w.Numbering)
    (haccepted : .accepted req ∈ w.trace) (hid : req.id < 2 ^ 32) (htype : req.type = .request) :
    (request cfg req w).Numbering := by
  rcases request_cases req w with hacts | ⟨t, pkg, supply, hstages, heq⟩
  · exact hacts.numbering hw
  · have hqueued : (queueWrite (.request req) t pkg { w with supply := supply }).Numbering := by
      refine ⟨?_, ?_, hw.keys, ?_⟩
      · intro r hr
        exact ⟨List.mem_cons_of_mem _ (hw.asyncs r hr).1, (hw.asyncs r hr).2⟩
      · intro r t' pkg' hwrote
        rcases List.mem_cons.mp hwrote with hnew | hold
        · obtain ⟨rfl, -, rfl⟩ : r = req ∧ t' = t ∧ pkg' = pkg := by simpa using hnew
          refine ⟨List.mem_cons_of_mem _ haccepted, htype, fun hne bytes hbytes => ?_⟩
          rw [hbytes] at hstages
          exact sentHeader_sendStages hid hne hstages
        · obtain ⟨hacc, hrest⟩ := hw.wrote r t' pkg' hold
          exact ⟨List.mem_cons_of_mem _ hacc, hrest⟩
      · intro kv hkv
        obtain ⟨hkey, t', pkg', hwrote⟩ := hw.listed kv hkv
        exact ⟨hkey, t', pkg', List.mem_cons_of_mem _ hwrote⟩
    rw [heq, World.andThen]
    split
    · exact hqueued
    · exact hqueued.requestsSet List.mem_cons_self

theorem World.Numbering.asyncWriteCb {req : TcpReq} (hw : w.Numbering)
    (haccepted : .accepted req ∈ w.trace) (hid : req.id < 2 ^ 32) :
    (asyncWriteCb cfg req w).Numbering := by
  have hfired : (w.note (.asyncFired req (w.working req.transport))).Numbering :=
    hw.note rfl (by simp) rfl rfl
  rw [Libpomelo.asyncWriteCb]
  split
  · next htype => exact hfired.request (List.mem_cons_of_mem _ haccepted) hid htype
  · exact (acts_notify req _).numbering hfired

/-- **A feed keeps the ids in order.** -/
theorem World.Numbering.feed {ms : List Bool} {data : Bytes} {rc : ℤ} (hw : w.Numbering)
    (h : pkgParserFeed (clientHost cfg) ms w data = some (rc, w')) : w'.Numbering :=
  feed_preserves (fun _ _ hv hact => (Acts.single hact).numbering hv)
    (fun _ _ hv => ⟨hv.asyncs, hv.wrote, hv.keys, hv.listed⟩)
    (fun _ _ _ hv => hv.note rfl (by simp) rfl rfl) hw h

theorem World.Numbering.receives (hw : w.Numbering) (supply : List Bool) (t : ℕ) :
    (w.receives supply t).Numbering :=
  hw.note rfl (by simp) rfl rfl

theorem World.Numbering.clientOnTcpRead {ms : List Bool} {data : Bytes} (hw : w.Numbering) :
    (clientOnTcpRead cfg ms data w).Numbering :=
  clientOnTcpRead_preserves (fun _ _ hv hact => (Acts.single hact).numbering hv)
    (fun _ _ hv => ⟨hv.asyncs, hv.wrote, hv.keys, hv.listed⟩)
    (fun _ _ _ hv => hv.note rfl (by simp) rfl rfl) ms data hw

/-- **The ids are in order in every reachable state.** -/
theorem reach_numbering {ok : World → List Bool × Label → World → Prop}
    (h : (clientLts cfg).Reach ok w) : w.Numbering := by
  apply h.invariant
  · rintro _ ⟨reqId, files, -, rfl⟩
    exact ⟨by simp [World.init], by simp [World.init], List.nodup_nil, by simp [World.init]⟩
  · rintro w ⟨supply, l⟩ w' _ hw hstep _
    have htends : Tends cfg supply w w' := step_tends hstep
    cases htends with
    | acts hacts => exact hacts.numbering hw
    | reads t ms data =>
      have hread : (clientOnTcpRead cfg ms data (w.receives supply t)).Numbering :=
        (hw.receives supply t).clientOnTcpRead
      exact ⟨hread.asyncs, hread.wrote, hread.keys, hread.listed⟩
    | fires i req hi =>
      -- the request moves from the queue of the async handles to the wire and the table
      obtain ⟨haccepted, hid⟩ := hw.asyncs req (List.mem_of_getElem? hi)
      have hpopped : ({ w with supply := supply, asyncs := w.asyncs.eraseIdx i } : World).Numbering :=
        ⟨fun r hr => hw.asyncs r (List.mem_of_mem_eraseIdx hr), hw.wrote, hw.keys, hw.listed⟩
      exact hpopped.asyncWriteCb haccepted hid
    | frees =>
      obtain ⟨v, hacts, hfree⟩ := clientFree_cases cfg { w with supply := supply }
      have hv : v.Numbering := hacts.numbering ⟨hw.asyncs, hw.wrote, hw.keys, hw.listed⟩
      rcases hfree with ⟨-, heq⟩ | heq
      · rw [heq]
        exact hv
      · rw [heq]
        exact ⟨hv.asyncs, hv.wrote, hv.keys, hv.listed⟩

end Numbering

/-! ## Requests and their responses -/

/-- A request is accepted with an id that is not `0`, and its package was allocated when it
is written. -/
def Event.Numbered : Event → Prop
  | .accepted req => req.type = .request → req.id ≠ 0
  | .wrote ⟨.request _, _, data⟩ => data.isSome = true
  | _ => True

instance : DecidablePred Event.Numbered := by
  intro e
  unfold Event.Numbered
  split <;> infer_instance

/-- **The ids do what they are for.** -/
structure World.Numbered (cfg : Config) (w : World) : Prop where
  /-- what is written for a request is a `REQUEST` with its id, which is at least 1 -/
  sent : ∀ req t pkg, .wrote ⟨.request req, t, pkg⟩ ∈ w.trace →
    1 ≤ req.id ∧ ∃ bytes, pkg = some bytes ∧ sentHeader bytes = some (.request, req.id)
  /-- the ids in the map are distinct -/
  distinct : (w.requests.map Prod.fst).Nodup
  /-- each request in the map is filed under the id that its message carried -/
  filed : ∀ i req, (i, req) ∈ w.requests → ∃ t bytes,
    .wrote ⟨.request req, t, some bytes⟩ ∈ w.trace ∧ sentHeader bytes = some (.request, i)
  /-- and under no other -/
  carried : ∀ i req t bytes, (i, req) ∈ w.requests →
    .wrote ⟨.request req, t, some bytes⟩ ∈ w.trace → sentHeader bytes = some (.request, i)
  /-- a response completes the request in the map with its id, and removes its entry -/
  response : ∀ body raw msg supply,
    defaultMsgParseCb cfg.loadb w.tables (fun id => (requestsGet w id).map TcpReq.route) w.supply
      body = .ok (raw, msg, supply) → raw.type = .response →
    ∃ req, (raw.id, req) ∈ w.requests ∧ pcData cfg body w =
      (callback cfg (.requestCb req.serial 0) ({ w with
        supply := supply, requests := w.requests.filter fun kv => kv.1 ≠ raw.id }.note
          (.message raw true)), true)

section Responses

variable {cfg : Config} {w : World}

theorem mem_of_lookup {l : List (ℕ × TcpReq)} {i : ℕ} {req : TcpReq} (h : l.lookup i = some req) :
    (i, req) ∈ l := by
  obtain ⟨before, after, hsplit, -⟩ := lookup_split h
  rw [hsplit]
  exact List.mem_append_right _ List.mem_cons_self

/-- A response is parsed with the route of the request in the map. -/
theorem parse_response {t : Tables} {route : ℕ → Option Bytes} {ms ms' : List Bool} {body : Bytes}
    {raw : RawMsg} {msg : Msg}
    (h : defaultMsgParseCb cfg.loadb t route ms body = .ok (raw, msg, ms'))
    (htype : raw.type = .response) : (route raw.id).isSome = true := by
  rw [defaultMsgParseCb] at h
  rcases hraw : rawMsg ms body with stop | ⟨raw₁, ms₁⟩
  · rw [hraw] at h
    exact absurd h (by simp [bind, Except.bind])
  · rw [hraw] at h
    simp only [bind, Except.bind] at h
    split at h
    · split at h
      · exact absurd h (by simp)
      · next r hroute =>
        split at h
        · exact absurd h (by simp)
        · obtain ⟨rfl, -⟩ := Prod.mk.inj (Except.ok.inj h)
          have hno : raw₁.type.hasRoute = false := by rw [htype]; rfl
          rw [parseRoute, hno, if_neg Bool.false_ne_true] at hroute
          split at hroute
          · next hsome => rw [hsome]; rfl
          · exact absurd hroute (by simp)
    · exact absurd h (by simp)

/-- **A response** completes the request in the map with its id. -/
theorem pcData_response {body : Bytes} {raw : RawMsg} {msg : Msg} {supply : List Bool}
    {req : TcpReq} (hw : w.Numbering) (hpos : 0 < raw.id) (hget : requestsGet w raw.id = some req)
    (h : defaultMsgParseCb cfg.loadb w.tables (fun id => (requestsGet w id).map TcpReq.route)
      w.supply body = .ok (raw, msg, supply)) :
    pcData cfg body w = (callback cfg (.requestCb req.serial 0) ({ w with
      supply := supply, requests := w.requests.filter fun kv => kv.1 ≠ raw.id }.note
        (.message raw true)), true) := by
  have hid : msg.id = raw.id := (defaultMsgParseCb_id cfg.loadb h).1
  rw [pcData, h]
  dsimp only
  rw [hid, if_pos hpos, hget, processResponse]
  have hget' : requestsGet ({ w with supply := supply }.note
      (.message raw (some req).isSome)) raw.id = some req := hget
  rw [hget']
  dsimp only
  rw [← hw.requestsDel_requests]
  rfl

/-- The ids are in order, and no event spoils them. -/
theorem World.Numbering.numbered (hw : w.Numbering) (hok : ∀ e ∈ w.trace, e.Numbered) :
    w.Numbered cfg := by
  have hsent : ∀ req t pkg, .wrote ⟨.request req, t, pkg⟩ ∈ w.trace →
      1 ≤ req.id ∧ ∃ bytes, pkg = some bytes ∧ sentHeader bytes = some (.request, req.id) := by
    intro req t pkg hwrote
    obtain ⟨haccepted, htype, hheader⟩ := hw.wrote req t pkg hwrote
    have hne : req.id ≠ 0 := hok _ haccepted htype
    obtain ⟨bytes, rfl⟩ := Option.isSome_iff_exists.mp (hok _ hwrote)
    exact ⟨Nat.one_le_iff_ne_zero.mpr hne, bytes, rfl, hheader hne bytes rfl⟩
  refine ⟨hsent, hw.keys, ?_, ?_, ?_⟩
  · intro i req hmem
    obtain ⟨hkey, t, pkg, hwrote⟩ := hw.listed (i, req) hmem
    obtain ⟨-, bytes, rfl, hheader⟩ := hsent req t pkg hwrote
    refine ⟨t, bytes, hwrote, ?_⟩
    rw [show i = req.id from hkey]
    exact hheader
  · intro i req t bytes hmem hwrote
    obtain ⟨hkey, -⟩ := hw.listed (i, req) hmem
    obtain ⟨-, bytes', hbytes, hheader⟩ := hsent req t (some bytes) hwrote
    obtain rfl := Option.some.inj hbytes
    rw [show i = req.id from hkey]
    exact hheader
  · intro body raw msg supply hparse htype
    -- the parser has found the request's route, so the request is listed
    have hsome := parse_response hparse htype
    rw [Option.isSome_map] at hsome
    obtain ⟨req, hget⟩ := Option.isSome_iff_exists.mp hsome
    have hmem : (raw.id, req) ∈ w.requests := mem_of_lookup hget
    obtain ⟨hkey, t, pkg, hwrote⟩ := hw.listed _ hmem
    have hpos : 0 < raw.id := by
      rw [show raw.id = req.id from hkey]
      exact (hsent req t pkg hwrote).1
    exact ⟨req, hmem, pcData_response hw hpos hget hparse⟩

/-- **Requests are numbered.** In every run, between two turns and at every point of a read
where the next package is taken up, the ids do what they are for: what is written for a
request is a `REQUEST` with its id, at least 1; the ids in the map are distinct; and a
response completes the request in the map whose message carried its id, and removes that
entry only. The counter must not have handed out the id `0`, nor an allocation of
`pc_pkg_encode` have failed for a request. -/
theorem requests_numbered {v : World} (h : Reachable cfg w)
    (hv : v = w ∨ ∃ supply t ms front rc,
      pkgParserFeed (clientHost cfg) ms (w.receives supply t) front = some (rc, v))
    (hok : ∀ e ∈ v.trace, e.Numbered) : v.Numbered cfg := by
  have hw : w.Numbering := reach_numbering h
  rcases hv with rfl | ⟨supply, t, ms, front, rc, hfeed⟩
  · exact hw.numbered hok
  · exact ((hw.receives supply t).feed hfeed).numbered hok

end Responses

/-- A request that is written; its response is to come. -/
def pendingRun : List (List Bool × Label) :=
  plainStart ++ [([], .call (.request [97] (some (.obj [])))), ([], .asyncWrite 0)]

/-- Two requests that wait for their responses at the same time. -/
def pendingPair : List (List Bool × Label) :=
  pendingRun ++ [([], .call (.request [98] (some (.obj [])))), ([], .asyncWrite 0)]

theorem requests_numbered_pendingPair :
    ∃ w first second, runSteps (plainConfig false) pendingPair plainInit = some w ∧
      w.requests = [(1, first), (2, second)] ∧ (∀ e ∈ w.trace, e.Numbered) ∧
      w.Numbered (plainConfig false) := by
  have hrun : ∃ w first second, runSteps (plainConfig false) pendingPair plainInit = some w ∧
      w.requests = [(1, first), (2, second)] ∧ ∀ e ∈ w.trace, e.Numbered :=
    ⟨_, _, _, rfl, rfl, by decide +kernel⟩
  obtain ⟨w, first, second, hrun, hpending, hok⟩ := hrun
  exact ⟨w, first, second, hrun, hpending, hok,
    requests_numbered (reachable_of_run hrun) (.inl rfl) hok⟩

/-- **After `2 ^ 32 - 1` requests** the next one gets the id `0` and is written as a
`NOTIFY`. -/
theorem not_numbered_wrapped :
    ∃ w req t bytes, Reachable (plainConfig false) w ∧
      runSteps (plainConfig false) pendingRun (.init (2 ^ 32 - 1) ⟨none, none, none⟩) = some w ∧
      .accepted req ∈ w.trace ∧ req.type = .request ∧
      .wrote ⟨.request req, t, some bytes⟩ ∈ w.trace ∧ sentHeader bytes = some (.notify, 0) ∧
      ¬ w.Numbered (plainConfig false) := by
  have hrun : ∃ w req t bytes rest older,
      runSteps (plainConfig false) pendingRun (.init (2 ^ 32 - 1) ⟨none, none, none⟩) = some w ∧
      w.trace = .wrote ⟨.request req, t, some bytes⟩ :: rest :: .accepted req :: older ∧
      req.type = .request ∧ req.id = 0 ∧ sentHeader bytes = some (.notify, 0) :=
    ⟨_, _, _, _, _, _, rfl, rfl, rfl, rfl, rfl⟩
  obtain ⟨w, req, t, bytes, rest, older, hrun, htrace, htype, hid, hheader⟩ := hrun
  have hinit : (clientLts (plainConfig false)).Reach (fun _ _ _ => True)
      (.init (2 ^ 32 - 1) ⟨none, none, none⟩) :=
    .init ⟨2 ^ 32 - 1, ⟨none, none, none⟩, by decide, rfl⟩
  have hreach := reach_of_runSteps pendingRun hinit (runMeets_true pendingRun _) hrun
  have hwrote : .wrote ⟨.request req, t, some bytes⟩ ∈ w.trace := by
    rw [htrace]
    exact List.mem_cons_self
  refine ⟨w, req, t, bytes, hreach, hrun, by rw [htrace]; simp, htype, hwrote, hheader, ?_⟩
  intro hnumbered
  have hpos := (hnumbered.sent req t _ hwrote).1
  rw [hid] at hpos
  exact absurd hpos (by decide)

end Libpomelo
