import Libpomelo.MessageBounds
import Libpomelo.PbFaults
import Libpomelo.Protocol

/-!
# The route of a parsed message

`pc_msg_decode` leaves the string of an empty route at `NULL`, in a union with the route
code. `pc__default_msg_parse_cb` picks the member by the compress flag, and looks for `NULL`
only where the dictionary is asked. The parser should return in any case, and a message of a
type with a route should carry the one that was decoded, or the dictionary's entry of the code
that was decoded (`ParsesSafely`).

It does so for what is within bounds for the decoders below it (a header that ends in time, and a
protobuf body that does not stumble), apart from an empty route string, which `strlen` reads at
`NULL`.
-/

namespace Libpomelo

section Jansson

variable (loadb : Bytes → Option Json)

/-- What a message with a route carries. -/
def RouteOf (t : Tables) (raw : RawMsg) (route : Bytes) : Prop :=
  if raw.compressRoute then
    ∃ entry, resolveDictionary t raw.routeCode = some entry ∧ route = utf8Bytes entry
  else ∃ str, raw.routeStr = some str ∧ route = cString str

/-- **Safe.** The parser returns `NULL` or a message, and a message of a type that has a route
carries it. -/
structure ParsesSafely (t : Tables) (requestRoute : ℕ → Option Bytes) (ms : List Bool)
    (data : Bytes) : Prop where
  /-- nothing is read or copied at `NULL` or outside the data -/
  returns : defaultMsgParseCb loadb t requestRoute ms data ≠ .error .fault
  /-- the route -/
  route : ∀ raw msg ms', defaultMsgParseCb loadb t requestRoute ms data = .ok (raw, msg, ms') →
    raw.type.hasRoute = true → ∃ route, msg.route = some route ∧ RouteOf t raw route

end Jansson

/-- The data hold an uncompressed route of length zero. -/
def EmptyRoute (data : Bytes) : Prop :=
  ∃ flag rest type, data = flag :: rest ∧ MsgType.ofCode (flag.toNat >>> 1) = some type ∧
    type.hasRoute = true ∧ flag.toNat &&& 1 ≠ 1 ∧ (behindId type rest).head? = some 0

/-- The route by which the parser looks up the definition of a body. -/
def protoRoute (t : Tables) (requestRoute : ℕ → Option Bytes) (raw : RawMsg) : Option Bytes :=
  if raw.type.hasRoute then
    if raw.compressRoute then (resolveDictionary t raw.routeCode).map utf8Bytes
    else raw.routeStr.map cString
  else requestRoute raw.id

/-- The body does not stumble under the definition of its route, if there is one and the parser
gets there. -/
def BodyInBounds (t : Tables) (requestRoute : ℕ → Option Bytes) (ms : List Bool) (raw : RawMsg) :
    Prop :=
  ∀ route gprotos pbDef, (malloc ms).1 = true →
    (raw.type.hasRoute = true → (malloc (malloc ms).2).1 = true) →
    protoRoute t requestRoute raw = some route → raw.body ≠ [] →
    t.serverProtos = some gprotos → jsonObjectGetText t.serverProtos route = some pbDef →
    ¬ Stumbles raw.body gprotos raw.body.length pbDef (pbIstreamFromBuffer raw.body.length)

/-- **What is parsed safely.** The header is within bounds for the decoder of messages; once
it has been decoded, and there is memory for the message, its route is not an empty string; and
the body has no field at which the decoder of protobuf goes out of bounds. -/
structure ParseInBounds (t : Tables) (requestRoute : ℕ → Option Bytes) (ms : List Bool)
    (data : Bytes) : Prop where
  /-- the header -/
  header : InBounds ms data
  /-- the route -/
  route : ∀ raw ms', msgDecode ms data = .ok (raw, ms') → (malloc ms').1 = true →
    ¬ EmptyRoute data
  /-- the body -/
  body : ∀ raw ms', msgDecode ms data = .ok (raw, ms') → BodyInBounds t requestRoute ms' raw

section Decoder

variable {ms ms' : List Bool} {data : Bytes} {raw : RawMsg}

/-- Out of bounds the decoder of messages faults, and only there. -/
theorem rawMsg_fault_iff (hlen : data.length < 2 ^ 64) :
    rawMsg ms data = .error .fault ↔ ¬ InBounds ms data := by
  constructor
  · intro hfault hin
    rw [rawMsg] at hfault
    rcases hin.decode with hnull | ⟨raw, ms', header, hok, -⟩
    · rw [hnull] at hfault
      exact absurd hfault (by simp)
    · rw [hok] at hfault
      exact absurd hfault (by simp)
  · intro hout
    by_contra hno
    rw [rawMsg] at hno
    refine hout (inBounds_of_decode hlen ?_ ?_ ?_)
    all_goals
      intro hstop
      rw [hstop] at hno
      exact hno rfl

/-- A route string is missing just where its length is zero. -/
theorem msgDecodeRoute_none_iff {len code : ℕ} {str : Option Bytes} {rest body : Bytes}
    (h : msgDecodeRoute ms false len rest = .ok (code, str, body, ms')) :
    str = none ↔ rest.head? = some 0 := by
  cases rest with
  | nil => exact absurd h (by simp [msgDecodeRoute])
  | cons b route =>
    have hzero : charToSize b = 0 ↔ b = 0 := by
      have hlow : b.toNat < 256 := UInt8.toNat_lt b
      have heq : b = 0 ↔ b.toNat = 0 := UInt8.toNat_inj.symm
      rw [charToSize, heq]
      split <;> omega
    rw [List.head?_cons, Option.some.injEq, ← hzero]
    simp only [msgDecodeRoute, Bool.false_eq_true, if_false] at h
    by_cases hlen : charToSize b = 0
    · rw [if_pos hlen] at h
      obtain ⟨-, hrest⟩ := Prod.mk.inj (Except.ok.inj h)
      obtain ⟨rfl, -⟩ := Prod.mk.inj hrest
      exact iff_of_true rfl hlen
    · rw [if_neg hlen] at h
      split at h
      · exact absurd h (by simp)
      · split at h
        · exact absurd h (by simp)
        · split at h
          · exact absurd h (by simp)
          · obtain ⟨-, hrest⟩ := Prod.mk.inj (Except.ok.inj h)
            obtain ⟨rfl, -⟩ := Prod.mk.inj hrest
            exact iff_of_false (by simp) hlen

/-- The fields of a raw message, by the bytes they come from. -/
theorem decodeBehindType_fields {type : MsgType} {compressRoute : Bool} {rest : Bytes}
    (hin : HeaderInBounds ms type compressRoute rest)
    (h : decodeBehindType ms type compressRoute (rest.length + 1) rest = .ok (raw, ms')) :
    raw.type = type ∧ raw.compressRoute = compressRoute ∧
      (type.hasRoute = true → compressRoute = false →
        (raw.routeStr = none ↔ (behindId type rest).head? = some 0)) := by
  have hrest : type.hasId = true → rest ≠ [] := by
    intro hid hnil
    rw [decodeBehindType, if_pos hid, if_pos hnil] at h
    exact absurd h (by simp [bind, Except.bind])
  obtain ⟨id, hread⟩ := decodeId_ok hin.id hrest
  rw [decodeBehindType_eq hread] at h
  obtain ⟨⟨code, str, body, ms₁⟩, hroute, h⟩ := bind_eq_ok.mp h
  have hraw : raw = ⟨id, type, compressRoute, code, str, body⟩ := by
    dsimp only at h
    split at h
    · exact (Prod.mk.inj (Except.ok.inj h)).1.symm
    · split at h
      · exact (Prod.mk.inj (Except.ok.inj h)).1.symm
      · exact absurd h (by simp)
  subst hraw
  refine ⟨rfl, rfl, ?_⟩
  rintro hhas rfl
  rw [if_pos hhas] at hroute
  exact msgDecodeRoute_none_iff hroute

/-- A raw message without the string of its route comes from an empty one. -/
theorem emptyRoute_iff (hin : InBounds ms data) (h : msgDecode ms data = .ok (raw, ms')) :
    EmptyRoute data ↔
      raw.type.hasRoute = true ∧ raw.compressRoute = false ∧ raw.routeStr = none := by
  have hmalloc : (malloc ms).1 = true := by
    by_contra hno
    rw [msgDecode] at h
    exact absurd h (by simp [hno])
  cases data with
  | nil => exact absurd h (by simp [msgDecode, hmalloc])
  | cons flag rest =>
    rcases htype : MsgType.ofCode (flag.toNat >>> 1) with _ | type
    · exact absurd h (by simp [msgDecode, hmalloc, htype])
    rw [msgDecode_cons hmalloc htype] at h
    obtain ⟨rfl, hflag, hstr⟩ := decodeBehindType_fields (hin flag rest type hmalloc rfl htype) h
    rw [hflag, decide_eq_false_iff_not]
    constructor
    · rintro ⟨flag', rest', type', hdata, htype', hroute, hplain, hhead⟩
      obtain ⟨rfl, rfl⟩ := List.cons.inj hdata
      obtain rfl := Option.some.inj (htype.symm.trans htype')
      exact ⟨hroute, hplain, (hstr hroute (by simpa using hplain)).mpr hhead⟩
    · rintro ⟨hroute, hplain, hnone⟩
      exact ⟨flag, rest, _, rfl, htype, hroute, hplain,
        (hstr hroute (by simpa using hplain)).mp hnone⟩

end Decoder

section Parser

variable {loadb : Bytes → Option Json} {t : Tables} {requestRoute : ℕ → Option Bytes}
  {ms ms' : List Bool} {data : Bytes} {raw : RawMsg}

theorem parseRoute_of_empty (hroute : raw.type.hasRoute = true) (hplain : raw.compressRoute = false)
    (hnone : raw.routeStr = none) : parseRoute t requestRoute ms raw = .error .fault := by
  rw [parseRoute, if_pos hroute, if_neg (by simp [hplain]), hnone]
  rfl

/-- Any other route is found by `protoRoute`, or the parser returns `NULL`. -/
theorem parseRoute_eq
    (h : ¬ (raw.type.hasRoute = true ∧ raw.compressRoute = false ∧ raw.routeStr = none)) :
    parseRoute t requestRoute ms raw =
      match protoRoute t requestRoute raw with
      | none => .error .failed
      | some route =>
        if raw.type.hasRoute then
          if (malloc ms).1 then .ok (some route, route, (malloc ms).2) else .error .failed
        else .ok (none, route, ms) := by
  rw [parseRoute, protoRoute]
  by_cases hroute : raw.type.hasRoute = true
  · rw [if_pos hroute, if_pos hroute]
    by_cases hcompress : raw.compressRoute = true
    · rw [if_pos hcompress, if_pos hcompress]
      cases resolveDictionary t raw.routeCode with
      | none => rfl
      | some entry =>
        change _ = if raw.type.hasRoute = true then _ else _
        rw [if_pos hroute]
        rfl
    · rw [if_neg hcompress, if_neg hcompress]
      cases hstr : raw.routeStr with
      | none => exact absurd ⟨hroute, by simpa using hcompress, hstr⟩ h
      | some str =>
        change _ = if raw.type.hasRoute = true then _ else _
        rw [if_pos hroute]
        rfl
  · rw [if_neg hroute, if_neg hroute]
    cases requestRoute raw.id with
    | none => rfl
    | some route =>
      change _ = if raw.type.hasRoute = true then _ else _
      rw [if_neg hroute]

/-- What `protoRoute` finds is the route of the message. -/
theorem routeOf_of_protoRoute {route : Bytes} (hroute : raw.type.hasRoute = true)
    (h : protoRoute t requestRoute raw = some route) : RouteOf t raw route := by
  rw [protoRoute, if_pos hroute] at h
  rw [RouteOf]
  by_cases hcompress : raw.compressRoute = true
  · rw [if_pos hcompress] at h ⊢
    obtain ⟨entry, hentry, rfl⟩ := Option.map_eq_some_iff.mp h
    exact ⟨entry, hentry, rfl⟩
  · rw [if_neg hcompress] at h ⊢
    obtain ⟨str, hstr, rfl⟩ := Option.map_eq_some_iff.mp h
    exact ⟨str, hstr, rfl⟩

/-- The decoder of a body faults where the bytes stumble. -/
theorem pbDecodeBody_fault_iff {body : Bytes} {gprotos pbDef : Json} :
    pbDecodeBody body gprotos pbDef = .error .fault ↔
      Stumbles body gprotos body.length pbDef (pbIstreamFromBuffer body.length) := by
  rw [← pcPbDecode_faults_iff body gprotos pbDef (.obj []), pbDecodeBody]
  rcases pcPbDecode body gprotos pbDef (.obj []) with stop | result
  · cases stop <;> simp
  · exact iff_of_false (by simp) (by simp)

theorem parseBody_fault_iff {route body : Bytes} :
    parseBody loadb t route body = .error .fault ↔
      body ≠ [] ∧ ∃ gprotos pbDef, t.serverProtos = some gprotos ∧
        jsonObjectGetText t.serverProtos route = some pbDef ∧
        Stumbles body gprotos body.length pbDef (pbIstreamFromBuffer body.length) := by
  simp only [← pbDecodeBody_fault_iff]
  rw [parseBody]
  by_cases hnil : body = []
  · rw [if_pos hnil]
    simp [hnil]
  · rw [if_neg hnil]
    rcases hserver : t.serverProtos with _ | gprotos
    · cases jsonDecode loadb body <;> simp
    rcases hdef : jsonObjectGetText (some gprotos) route with _ | pbDef
    · cases jsonDecode loadb body <;> simp
    dsimp only
    cases hbody : pbDecodeBody body gprotos pbDef <;> simp [hnil, hbody, Except.map]

/-- The parser behind the decoder and the allocation of the message. -/
theorem defaultMsgParseCb_of_raw (hdec : msgDecode ms data = .ok (raw, ms'))
    (hmalloc : (malloc ms').1 = true) :
    defaultMsgParseCb loadb t requestRoute ms data =
      parseRoute t requestRoute (malloc ms').2 raw >>= fun r =>
        parseBody loadb t r.2.1 raw.body >>= fun msg => .ok (raw, ⟨raw.id, r.1, msg⟩, r.2.2) := by
  rw [defaultMsgParseCb, rawMsg, hdec]
  simp only [bind, Except.bind, hmalloc]
  rfl

/-- Behind a route that is there, the parser faults where the decoder of protobuf does. -/
theorem defaultMsgParseCb_fault_iff (hdec : msgDecode ms data = .ok (raw, ms'))
    (hmalloc : (malloc ms').1 = true)
    (h : ¬ (raw.type.hasRoute = true ∧ raw.compressRoute = false ∧ raw.routeStr = none)) :
    defaultMsgParseCb loadb t requestRoute ms data = .error .fault ↔
      ¬ BodyInBounds t requestRoute ms' raw := by
  rw [defaultMsgParseCb_of_raw hdec hmalloc, parseRoute_eq h, BodyInBounds]
  rcases hfound : protoRoute t requestRoute raw with _ | route
  · refine iff_of_false (by simp [bind, Except.bind]) (not_not.mpr ?_)
    exact fun route gprotos pbDef _ _ hroute => absurd hroute (by simp)
  -- with the route found, only the body can still fault
  have hbody : ∀ ms₁ found,
      ((.ok (found, route, ms₁) : Except CodingStop (Option Bytes × Bytes × List Bool)) >>= fun r =>
        parseBody loadb t r.2.1 raw.body >>= fun msg =>
          .ok (raw, (⟨raw.id, r.1, msg⟩ : Msg), r.2.2)) = .error .fault ↔
        parseBody loadb t route raw.body = .error .fault := by
    intro ms₁ found
    simp only [bind, Except.bind]
    cases parseBody loadb t route raw.body <;> simp
  have hspread : parseBody loadb t route raw.body = .error .fault ↔
      ¬ ∀ route' gprotos pbDef, some route = some route' → raw.body ≠ [] →
        t.serverProtos = some gprotos → jsonObjectGetText t.serverProtos route' = some pbDef →
        ¬ Stumbles raw.body gprotos raw.body.length pbDef (pbIstreamFromBuffer raw.body.length) := by
    rw [parseBody_fault_iff]
    constructor
    · rintro ⟨hne, gprotos, pbDef, hserver, hdef, hfault⟩ hall
      exact hall route gprotos pbDef rfl hne hserver hdef hfault
    · intro hnot
      push Not at hnot
      obtain ⟨route', gprotos, pbDef, heq, hne, hserver, hdef, hfault⟩ := hnot
      obtain rfl := Option.some.inj heq
      exact ⟨hne, gprotos, pbDef, hserver, hdef, hfault⟩
  dsimp only
  by_cases hroute : raw.type.hasRoute = true
  · rw [if_pos hroute]
    by_cases hcopy : (malloc (malloc ms').2).1 = true
    · rw [if_pos hcopy, hbody, hspread]
      simp only [hmalloc, hcopy, true_imp_iff, imp_true_iff]
    · rw [if_neg hcopy]
      refine iff_of_false (by simp [bind, Except.bind]) (not_not.mpr ?_)
      exact fun _ _ _ _ hgot => absurd (hgot hroute) hcopy
  · rw [if_neg hroute, hbody, hspread]
    simp only [hmalloc, hroute, true_imp_iff, false_imp_iff, Bool.false_eq_true]

/-- A parsed message carries its route. -/
theorem defaultMsgParseCb_route {msg : Msg} {ms'' : List Bool}
    (hdec : msgDecode ms data = .ok (raw, ms')) (hmalloc : (malloc ms').1 = true)
    (h : ¬ (raw.type.hasRoute = true ∧ raw.compressRoute = false ∧ raw.routeStr = none))
    (hparse : defaultMsgParseCb loadb t requestRoute ms data = .ok (raw, msg, ms''))
    (hroute : raw.type.hasRoute = true) : ∃ route, msg.route = some route ∧ RouteOf t raw route := by
  rw [defaultMsgParseCb_of_raw hdec hmalloc, parseRoute_eq h] at hparse
  obtain ⟨⟨found, route, ms₁⟩, hread, hrest⟩ := bind_eq_ok.mp hparse
  obtain ⟨body, -, hmsg⟩ := bind_eq_ok.mp hrest
  obtain ⟨-, hmsg⟩ := Prod.mk.inj (Except.ok.inj hmsg)
  obtain ⟨rfl, -⟩ := Prod.mk.inj hmsg
  rcases hfound : protoRoute t requestRoute raw with _ | route'
  · rw [hfound] at hread
    exact absurd hread (by simp)
  rw [hfound] at hread
  dsimp only at hread
  rw [if_pos hroute] at hread
  split at hread
  · obtain ⟨rfl, hread⟩ := Prod.mk.inj (Except.ok.inj hread)
    exact ⟨route', rfl, routeOf_of_protoRoute hroute hfound⟩
  · exact absurd hread (by simp)

/-- A parser that returns `NULL` is safe. -/
theorem ParsesSafely.of_failed
    (h : defaultMsgParseCb loadb t requestRoute ms data = .error .failed) :
    ParsesSafely loadb t requestRoute ms data := by
  refine ⟨by simp [h], fun raw msg ms' hok => ?_⟩
  exact absurd (h.symm.trans hok) (by simp)

/-- Where the decoder of messages stops, the header alone decides. -/
theorem parsesSafely_iff_of_stop {stop : MsgStop} (hlen : data.length < 2 ^ 64)
    (hdec : msgDecode ms data = .error stop) :
    ParsesSafely loadb t requestRoute ms data ↔ ParseInBounds t requestRoute ms data := by
  by_cases hin : InBounds ms data
  · have hnull : rawMsg ms data = .error .failed := by
      rcases hin.decode with hnull | ⟨raw, ms', header, hok, -⟩
      · rw [rawMsg, hnull]
      · exact absurd (hdec.symm.trans hok) (by simp)
    have hparse : defaultMsgParseCb loadb t requestRoute ms data = .error .failed := by
      rw [defaultMsgParseCb, hnull]
      rfl
    refine iff_of_true (.of_failed hparse) ⟨hin, ?_, ?_⟩
    · exact fun raw ms' hok => absurd (hdec.symm.trans hok) (by simp)
    · exact fun raw ms' hok => absurd (hdec.symm.trans hok) (by simp)
  · have hparse : defaultMsgParseCb loadb t requestRoute ms data = .error .fault := by
      rw [defaultMsgParseCb, (rawMsg_fault_iff hlen).mpr hin]
      rfl
    exact iff_of_false (fun hsafe => hsafe.returns hparse) fun hbounds => hin hbounds.header

/-- Behind the decoder the bounds speak of the message that it found. -/
theorem parseInBounds_iff_of_raw (hin : InBounds ms data) (hdec : msgDecode ms data = .ok (raw, ms')) :
    ParseInBounds t requestRoute ms data ↔
      ((malloc ms').1 = true → ¬ EmptyRoute data) ∧ BodyInBounds t requestRoute ms' raw := by
  have hraw : ∀ raw' ms'', msgDecode ms data = .ok (raw', ms'') → raw' = raw ∧ ms'' = ms' := by
    intro raw' ms'' hok
    obtain ⟨rfl, rfl⟩ := Prod.mk.inj (Except.ok.inj (hdec.symm.trans hok))
    exact ⟨rfl, rfl⟩
  constructor
  · exact fun h => ⟨h.route raw ms' hdec, h.body raw ms' hdec⟩
  · rintro ⟨hroute, hbody⟩
    refine ⟨hin, fun raw' ms'' hok => ?_, fun raw' ms'' hok => ?_⟩
    · obtain ⟨rfl, rfl⟩ := hraw raw' ms'' hok
      exact hroute
    · obtain ⟨rfl, rfl⟩ := hraw raw' ms'' hok
      exact hbody

/-- **When the parser is safe.** For every data of a length that fits a `size_t`, whatever the
tables, the pending requests and the outcomes of the allocations, the parser returns `NULL` or a
message with its route exactly when the data is within bounds. -/
theorem parsesSafely_iff (loadb : Bytes → Option Json) (t : Tables)
    (requestRoute : ℕ → Option Bytes) (ms : List Bool) {data : Bytes}
    (hlen : data.length < 2 ^ 64) :
    ParsesSafely loadb t requestRoute ms data ↔ ParseInBounds t requestRoute ms data := by
  rcases hdec : msgDecode ms data with stop | ⟨raw, ms'⟩
  · exact parsesSafely_iff_of_stop hlen hdec
  have hraw : rawMsg ms data = .ok (raw, ms') := by rw [rawMsg, hdec]
  have hin : InBounds ms data := by
    by_contra hno
    exact absurd (hraw.symm.trans ((rawMsg_fault_iff hlen).mpr hno)) (by simp)
  rw [parseInBounds_iff_of_raw hin hdec, emptyRoute_iff hin hdec]
  by_cases hmalloc : (malloc ms').1 = true
  · by_cases hempty :
        raw.type.hasRoute = true ∧ raw.compressRoute = false ∧ raw.routeStr = none
    · -- the route is read at `NULL`
      have hparse : defaultMsgParseCb loadb t requestRoute ms data = .error .fault := by
        rw [defaultMsgParseCb_of_raw hdec hmalloc,
          parseRoute_of_empty hempty.1 hempty.2.1 hempty.2.2]
        rfl
      exact iff_of_false (fun hsafe => hsafe.returns hparse) fun hbounds =>
        hbounds.1 hmalloc hempty
    · have hfault : defaultMsgParseCb loadb t requestRoute ms data = .error .fault ↔
          ¬ BodyInBounds t requestRoute ms' raw := defaultMsgParseCb_fault_iff hdec hmalloc hempty
      constructor
      · intro hsafe
        refine ⟨fun _ => hempty, ?_⟩
        by_contra hno
        exact hsafe.returns (hfault.mpr hno)
      · rintro ⟨-, hbody⟩
        refine ⟨fun hstop => hfault.mp hstop hbody, ?_⟩
        intro raw' msg ms'' hok hroute
        have hsame : raw' = raw := by
          rw [defaultMsgParseCb_of_raw hdec hmalloc] at hok
          obtain ⟨r, -, hrest⟩ := bind_eq_ok.mp hok
          obtain ⟨body, -, hmsg⟩ := bind_eq_ok.mp hrest
          exact (Prod.mk.inj (Except.ok.inj hmsg)).1.symm
        subst hsame
        exact defaultMsgParseCb_route hdec hmalloc hempty hok hroute
  · -- there is no memory for the message, and nothing else is looked at
    have hparse : defaultMsgParseCb loadb t requestRoute ms data = .error .failed := by
      rw [defaultMsgParseCb, hraw]
      simp only [bind, Except.bind, hmalloc]
      rfl
    refine iff_of_true (.of_failed hparse) ⟨fun hgot => absurd hgot hmalloc, ?_⟩
    exact fun route gprotos pbDef hgot => absurd hgot hmalloc

end Parser

/-- A push with the route `a` is parsed safely. -/
theorem parsesSafely_push :
    ParsesSafely (fun _ => none) ⟨none, none, none, none⟩ (fun _ => none) [] [6, 1, 97] ↔
      ParseInBounds ⟨none, none, none, none⟩ (fun _ => none) [] [6, 1, 97] :=
  parsesSafely_iff (fun _ => none) ⟨none, none, none, none⟩ (fun _ => none) [] (by decide)

/-- **Two bytes**: a push, and zero for the length of its route. -/
theorem not_parsesSafely_push :
    defaultMsgParseCb (fun _ => none) ⟨none, none, none, none⟩ (fun _ => none) [] [6, 0] =
        .error .fault ∧
      ¬ ParsesSafely (fun _ => none) ⟨none, none, none, none⟩ (fun _ => none) [] [6, 0] := by
  have hfault : defaultMsgParseCb (fun _ => none) ⟨none, none, none, none⟩ (fun _ => none) []
      [6, 0] = .error .fault := rfl
  exact ⟨hfault, fun hsafe => hsafe.returns hfault⟩

end Libpomelo
