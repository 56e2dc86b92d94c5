import Libpomelo.JsonRoundtrip
import Libpomelo.BodyEncoding
import Libpomelo.MessageRoundtrip
import Libpomelo.PackageStream
import Libpomelo.PbLimits
import Libpomelo.RouteDictionary
import Libpomelo.Handshake

/-!
# Messages over a stream

The two ends of the library put together: messages are encoded by `pc__default_msg_encode_cb`
and packed as data packages; the bytes arrive in pieces, and the package parser and
`pc__default_msg_parse_cb` make the messages of them again.

* `Mirrored` says that the tables of the two ends agree on a route.
* `Sendable` says when a message survives: a short route or a code that resolves, and a body that
  JSON text or the definition of the route can express.
* `Arrives` is what the receiver shows for a message.
-/

namespace Libpomelo

/-- A request, or a notify if the id is `0`. -/
structure Outgoing : Type where
  reqId : ℕ
  route : String
  msg : Json

/-- `json_dumps` with a compact text. -/
def dumpsText (sprintf17g : FiniteDouble → Bytes) : Json → Option Bytes :=
  jsonDumps (realText sprintf17g)

/-- `json_loadb` as its callers see it. -/
def loadbText (strtod : Bytes → Strtod) (data : Bytes) : Option Json :=
  (jsonLoadb strtod data).toOption

/-- The tables of the receiver `t'` fit those of the sender `t` for a route: the same definitions,
and a code that resolves to the route, or a route that is short enough to be sent as text. -/
structure Mirrored (t t' : Tables) (route : String) : Prop where
  protos : t'.serverProtos = t.clientProtos
  text : 0 ∉ utf8Bytes route
  code : 0 < routeCode t (utf8Bytes route) → routeCode t (utf8Bytes route) < 2 ^ 16 ∧
    resolveDictionary t' (routeCode t (utf8Bytes route)).toNat = some route
  short : ¬ 0 < routeCode t (utf8Bytes route) →
    1 ≤ (utf8Bytes route).length ∧ (utf8Bytes route).length < 128

section

variable (strtod : Bytes → Strtod) (sprintf17g : FiniteDouble → Bytes)

/-- A message without a definition for its route is sent as text. -/
structure TextBody (t : Tables) (out : Outgoing) : Prop where
  undefined : jsonObjectGetText t.clientProtos (utf8Bytes out.route) = none
  printable : out.msg.All (Printable strtod sprintf17g)

/-- A message with the definition `pbDef` for its route is sent as protobuf, in the scratch buffer
that its text determines. -/
structure PbBody (t : Tables) (out : Outgoing) (gprotos pbDef : Json) : Prop where
  protos : t.clientProtos = some gprotos
  defined : jsonObjectGetText t.clientProtos (utf8Bytes out.route) = some pbDef
  schema : ConformingSchema gprotos pbDef
  conforms : ConformsMsg gprotos pbDef out.msg
  fits : FitsMsg gprotos out.msg pbDef
  some_byte : wireMsg gprotos out.msg pbDef ≠ []
  scratch : ∃ text, dumpsText sprintf17g out.msg = some text ∧
    (wireMsg gprotos out.msg pbDef).length ≤ scratchSize text

/-- The message survives between these tables. -/
structure Sendable (t t' : Tables) (out : Outgoing) : Prop where
  id_lt : out.reqId < 2 ^ 32
  mirrored : Mirrored t t' out.route
  body : TextBody strtod sprintf17g t out ∨ ∃ gprotos pbDef, PbBody sprintf17g t out gprotos pbDef

/-- What the receiver shows for the message: its id and route, and an equal value; from protobuf,
the value without the empty repeated fields that put nothing on the wire. -/
structure Arrives (t : Tables) (out : Outgoing) (m : Msg) : Prop where
  id : m.id = out.reqId
  route : m.route = some (utf8Bytes out.route)
  msg : ∃ w, m.msg = some w ∧ (jsonEqual w out.msg = true ∨
    ∃ gprotos pbDef, PbBody sprintf17g t out gprotos pbDef ∧ w = stripMsg gprotos out.msg pbDef)

end

/-! ## One message -/

section

variable {strtod : Bytes → Strtod} {sprintf17g : FiniteDouble → Bytes}
  {t t' : Tables} {out : Outgoing}

theorem encodeBody_of_undefined {dumps : Json → Option Bytes} {route : Bytes}
    (h : jsonObjectGetText t.clientProtos route = none) (ms : List Bool) (msg : Json) :
    encodeBody dumps t ms route (some msg) =
      match dumps msg with
      | some text => .ok (text, ms)
      | none => .error .failed := by
  rw [encodeBody, h]
  cases t.clientProtos <;> rfl

theorem parseBody_of_undefined {loadb : Bytes → Option Json} {route body : Bytes}
    (h : jsonObjectGetText t.serverProtos route = none) (hne : body ≠ []) :
    parseBody loadb t route body =
      match loadb body with
      | some msg => .ok (some msg)
      | none => .error .failed := by
  rw [parseBody, if_neg hne, h]
  cases t.serverProtos <;> rfl

theorem parseBody_of_def {loadb : Bytes → Option Json} {route body : Bytes} {gprotos pbDef : Json}
    (hprotos : t.serverProtos = some gprotos)
    (hdef : jsonObjectGetText t.serverProtos route = some pbDef) (hne : body ≠ []) :
    parseBody loadb t route body = (pbDecodeBody body gprotos pbDef).map some := by
  rw [parseBody, if_neg hne, hdef]
  rw [hprotos]

/-- The text of a message is not empty. -/
theorem dumpsText_ne_nil {msg : Json} {text : Bytes} (h : dumpsText sprintf17g msg = some text) :
    text ≠ [] := by
  rintro rfl
  rw [dumpsText] at h
  cases msg with
  | arr xs => exact absurd h (by simp [jsonDumps, doDump])
  | obj kvs => exact absurd h (by simp [jsonDumps, doDump])
  | null | bool b | int i | real x | str s => exact absurd h (by simp [jsonDumps])

/-- The protobuf body of a message that fits its scratch buffer is the encoding of it. -/
theorem PbBody.body_eq {gprotos pbDef : Json} (h : PbBody sprintf17g t out gprotos pbDef)
    {ms ms' : List Bool} {body : Bytes}
    (henc : encodeBody (dumpsText sprintf17g) t ms (utf8Bytes out.route) (some out.msg) =
      .ok (body, ms')) : body = wireMsg gprotos out.msg pbDef := by
  rw [encodeBody_of_def h.protos h.defined] at henc
  obtain ⟨text, htext, hroom⟩ := h.scratch
  obtain ⟨halloc, hrun⟩ := pbEncodeBody_ok htext henc
  have hsize : scratchSize text < 2 ^ 64 := (lt_of_mallocSize halloc).trans (by decide)
  have hok := (pcPbEncode_eq_ok_iff h.schema h.conforms hsize).mpr ⟨rfl, hroom⟩
  obtain hwritten | ⟨s, hrefused⟩ := hrun
  · exact Except.ok.inj (hwritten.symm.trans hok)
  · exact absurd (hok.symm.trans hrefused) (by simp)

/-- What is encoded as the body of a message is parsed as the body of one. -/
theorem parseBody_encodeBody (h : Sendable strtod sprintf17g t t' out) {ms ms' : List Bool}
    {body : Bytes} (henc : encodeBody (dumpsText sprintf17g) t ms (utf8Bytes out.route)
      (some out.msg) = .ok (body, ms')) :
    ∃ w, parseBody (loadbText strtod) t' (utf8Bytes out.route) body = .ok (some w) ∧
      (jsonEqual w out.msg = true ∨
        ∃ gprotos pbDef, PbBody sprintf17g t out gprotos pbDef ∧
          w = stripMsg gprotos out.msg pbDef) := by
  have hprotos := h.mirrored.protos
  rcases h.body with hbody | ⟨gprotos, pbDef, hbody⟩
  · rw [encodeBody_of_undefined hbody.undefined] at henc
    rcases hdumps : dumpsText sprintf17g out.msg with _ | text
    · rw [hdumps] at henc
      cases henc
    · rw [hdumps] at henc
      obtain ⟨rfl, -⟩ := Prod.mk.inj (Except.ok.inj henc)
      have hload : loadbText strtod text = some out.msg := by
        rw [loadbText, loadb_of_dumps hbody.printable hdumps]
        rfl
      refine ⟨out.msg, ?_, .inl (jsonEqual_self (hbody.printable.imp fun w hw => hw.1))⟩
      rw [parseBody_of_undefined (by rw [hprotos]; exact hbody.undefined) (dumpsText_ne_nil hdumps),
        hload]
  · obtain rfl := hbody.body_eq henc
    have hdecodes := pcPbDecode_wireMsg hbody.schema hbody.conforms hbody.fits
    refine ⟨_, ?_, .inr ⟨gprotos, pbDef, hbody, rfl⟩⟩
    rw [parseBody_of_def (hprotos.trans hbody.protos) (by rw [hprotos]; exact hbody.defined)
      hbody.some_byte, pbDecodeBody, hdecodes]
    rfl

/-- What is put in front of a body is read as the id and the route it was made of. -/
theorem msgDecode_encodeRouted (h : Mirrored t t' out.route) (hid : out.reqId < 2 ^ 32)
    {ms ms' : List Bool} {body : Bytes} {buf : MsgBuf}
    (henc : encodeRouted t ms out.reqId (utf8Bytes out.route) body = (some buf, ms')) :
    ∃ raw, msgDecode [] buf.base = .ok (raw, []) ∧ raw.id = out.reqId ∧ raw.body = body ∧
      ∀ requestRoute, parseRoute t' requestRoute [] raw =
        .ok (some (utf8Bytes out.route), utf8Bytes out.route, []) := by
  have hroute := encodeType_hasRoute out.reqId
  have hidOf : (if (encodeType out.reqId).hasId then out.reqId else 0) = out.reqId := by
    rw [encodeType]
    split
    · next hzero => rw [hzero]; rfl
    · rfl
  rw [encodeRouted] at henc
  split at henc
  · next hcode =>
    obtain ⟨hlt, hresolves⟩ := h.code hcode
    refine ⟨_, msgDecode_msgEncodeCode hid (by omega) hlt henc, hidOf, rfl, fun requestRoute => ?_⟩
    simp only [parseRoute, hroute, if_pos, hresolves]
    rfl
  · next hcode =>
    obtain ⟨hpos, hshort⟩ := h.short hcode
    have hbuf := msgEncodeRoute_eq hroute ms out.reqId (utf8Bytes out.route) body
    rw [henc] at hbuf
    split at hbuf
    case isFalse => cases hbuf
    next hok =>
    obtain rfl := Option.some.inj hbuf
    have hmod : (utf8Bytes out.route).length % 2 ^ 16 = (utf8Bytes out.route).length :=
      Nat.mod_eq_of_lt (by omega)
    have hsize : msgRouteSize out.reqId (encodeType out.reqId) (utf8Bytes out.route) body < 2 ^ 63 := by
      rw [mallocSize, Bool.and_eq_true, decide_eq_true_eq] at hok
      exact hok.2
    have hlength : (msgHeader (encodeType out.reqId) false out.reqId ++
        (msgEncodeRouteText (utf8Bytes out.route) (utf8Bytes out.route).length ++ body)).length =
        msgRouteSize out.reqId (encodeType out.reqId) (utf8Bytes out.route) body := by
      rw [msgRouteSize, hroute, if_pos rfl, hmod, List.length_append, length_msgHeader,
        List.length_append, msgEncodeRouteText, List.take_length, List.length_cons]
      omega
    have hroom : (utf8Bytes out.route).length + body.length ≤
        msgRouteSize out.reqId (encodeType out.reqId) (utf8Bytes out.route) body := by
      rw [msgRouteSize, hroute, if_pos rfl, hmod]
      omega
    have htext := @msgDecodeRoute_text _ body _ hpos hshort (hlength ▸ hsize) (hlength ▸ hroom)
    dsimp only
    rw [hmod]
    refine ⟨_, msgDecode_parts hid ((if_pos hroute).trans htext), hidOf, rfl, fun requestRoute => ?_⟩
    simp only [parseRoute, hroute, if_pos, cString_of_not_mem h.text]
    rfl

/-- **One message**: what is encoded for it is parsed as it. -/
theorem defaultMsgParseCb_arrives (h : Sendable strtod sprintf17g t t' out) {ms ms' : List Bool}
    {buf : MsgBuf} (requestRoute : ℕ → Option Bytes)
    (henc : defaultMsgEncodeCb (dumpsText sprintf17g) t ms out.reqId (utf8Bytes out.route)
      (some out.msg) = .ok (buf, ms')) :
    ∃ raw m, defaultMsgParseCb (loadbText strtod) t' requestRoute [] buf.base = .ok (raw, m, []) ∧
      Arrives sprintf17g t out m := by
  rw [defaultMsgEncodeCb] at henc
  obtain ⟨⟨body, ms₁⟩, hbody, henc⟩ := bind_eq_ok.mp henc
  dsimp only at henc
  split at henc
  case h_2 => cases henc
  next buf' ms₂ hrouted =>
  obtain ⟨rfl, rfl⟩ := Prod.mk.inj (Except.ok.inj henc)
  obtain ⟨raw, hdec, hid, hraw, hroute⟩ := msgDecode_encodeRouted h.mirrored h.id_lt hrouted
  obtain ⟨w, hw, hequal⟩ := parseBody_encodeBody h hbody
  refine ⟨raw, ⟨raw.id, some (utf8Bytes out.route), some w⟩, ?_, hid, rfl, w, rfl, hequal⟩
  rw [defaultMsgParseCb, rawMsg, hdec]
  dsimp only
  simp only [ok_bind, malloc, if_true, hroute, hraw, hw]

/-! ## A stream of messages -/

/-- The buffers that were encoded for the messages, in order. -/
def Encoded (sprintf17g : FiniteDouble → Bytes) (t : Tables) (outs : List Outgoing)
    (bufs : List MsgBuf) : Prop :=
  List.Forall₂ (fun out buf => ∃ ms ms', defaultMsgEncodeCb (dumpsText sprintf17g) t ms out.reqId
    (utf8Bytes out.route) (some out.msg) = .ok (buf, ms')) outs bufs

/-- A package with the message: a data package whose body is parsed as the message, whatever
requests are waiting. -/
def CallArrives (strtod : Bytes → Strtod) (sprintf17g : FiniteDouble → Bytes)
    (t t' : Tables) (call : PkgCall) (out : Outgoing) : Prop :=
  call.type = pkgData ∧ ∀ requestRoute, ∃ raw m,
    defaultMsgParseCb (loadbText strtod) t' requestRoute [] call.data.bytes = .ok (raw, m, []) ∧
      Arrives sprintf17g t out m

theorem callArrives_of_delivers {outs : List Outgoing} {bufs : List MsgBuf} {calls : List PkgCall}
    (hsend : ∀ out ∈ outs, Sendable strtod sprintf17g t t' out)
    (hbufs : Encoded sprintf17g t outs bufs)
    (hcalls : Delivers calls (bufs.map fun buf => (pkgData, buf.base))) :
    List.Forall₂ (CallArrives strtod sprintf17g t t') calls outs := by
  induction hbufs generalizing calls with
  | nil =>
    cases hcalls
    exact .nil
  | cons hbuf hbufs ih =>
    rw [List.forall_mem_cons] at hsend
    obtain ⟨ms, ms', henc⟩ := hbuf
    cases hcalls with
    | cons hcall hcalls =>
      obtain ⟨htype, -, hbytes⟩ := hcall
      refine .cons ⟨htype, fun requestRoute => ?_⟩ (ih hsend.2 hcalls)
      rw [hbytes]
      exact defaultMsgParseCb_arrives hsend.1 requestRoute henc

/-- **Messages over a stream.** Requests and notifies that survive between the tables of the two
ends are encoded and packed; whatever pieces the bytes arrive in, the receiver gets one data
package for each message, in order, and parses it as that message. -/
theorem messages_arrive {outs : List Outgoing} {bufs : List MsgBuf}
    (hsend : ∀ out ∈ outs, Sendable strtod sprintf17g t t' out)
    (hbufs : Encoded sprintf17g t outs bufs)
    (hlen : ∀ buf ∈ bufs, buf.base.length < pkgMaxBodyBytes) :
    ∃ pkgs, (bufs.map fun buf => (pkgData, buf.base)).mapM (fun p => pkgEncode [] p.1 p.2) =
        some pkgs ∧
      ∀ chunks : List Bytes, chunks.flatten = pkgs.flatten →
        ∃ s, feedChunks [] ⟨pkgParserNew, []⟩ chunks =
            some (List.replicate chunks.length 0, s) ∧
          List.Forall₂ (CallArrives strtod sprintf17g t t') s.calls outs := by
  have hpkgs : ∀ p ∈ bufs.map (fun buf => (pkgData, buf.base)),
      p.1 < 256 ∧ p.2.length < pkgMaxBodyBytes := by
    intro p hp
    obtain ⟨buf, hbuf, rfl⟩ := List.mem_map.mp hp
    exact ⟨(by decide : pkgData < 256), hlen buf hbuf⟩
  obtain ⟨pkgs, hencode⟩ := pkgEncodes_some fun p hp => (hpkgs p hp).2
  refine ⟨pkgs, hencode, fun chunks hchunks => ?_⟩
  have hnew : (⟨pkgParserNew, []⟩ : PkgLog).parser.AtRest := ⟨rfl, rfl, rfl, rfl, rfl, rfl, rfl⟩
  obtain ⟨p, calls, -, hcalls, hfold⟩ := foldl_pkgEncodes hnew hpkgs hencode
  refine ⟨⟨p, calls⟩, ?_, callArrives_of_delivers hsend hbufs hcalls⟩
  rw [feedChunks_eq_foldl _ pkgParserNew_valid, hchunks, hfold]
  rfl

end

/-! ## A request and a notify -/

/-- The client has a code for `chat.send` and a definition for `counts`. -/
def senderTables : Tables :=
  ⟨some (.obj [("chat.send", .int 3)]), none, none, some (.obj [("counts", countsSchema)])⟩

/-- The server, with the code and the definition the other way round. -/
def receiverTables : Tables :=
  ⟨none, some (.obj [("3", .str "chat.send")]), some (.obj [("counts", countsSchema)]), none⟩

/-- A request with a code and text, and a notify with protobuf. -/
def outgoingExample : List Outgoing :=
  [⟨7, "chat.send", printableExample⟩, ⟨0, "counts", countsMsg 3⟩]

theorem chatSend_undefined :
    jsonObjectGetText senderTables.clientProtos (utf8Bytes "chat.send") = none := by
  rw [jsonObjectGetText, fromUTF8_utf8Bytes]
  rfl

theorem chatSend_code : routeCode senderTables (utf8Bytes "chat.send") = 3 := by
  rw [routeCode, jsonObjectGetText, fromUTF8_utf8Bytes]
  rfl

theorem counts_defined :
    jsonObjectGetText senderTables.clientProtos (utf8Bytes "counts") = some countsSchema := by
  rw [jsonObjectGetText, fromUTF8_utf8Bytes]
  rfl

theorem counts_code : routeCode senderTables (utf8Bytes "counts") = 0 := by
  rw [routeCode, jsonObjectGetText, fromUTF8_utf8Bytes]
  rfl

theorem sendable_chatSend : Sendable strtodExample sprintfExample senderTables receiverTables
    ⟨7, "chat.send", printableExample⟩ := by
  refine ⟨by decide, ⟨rfl, by decide, fun _ => ?_, fun hno => ?_⟩,
    .inl ⟨chatSend_undefined, printableExample_printable⟩⟩
  · rw [chatSend_code]
    exact ⟨by decide, rfl⟩
  · exact absurd (chatSend_code ▸ by decide) hno

theorem countsMsg_text :
    dumpsText sprintfExample (countsMsg 3) = some (utf8Bytes "\x7b\"a\":[0,0,0]\x7d") := by
  decide +kernel

theorem countsMsg_wire : wireMsg (.obj [("counts", countsSchema)]) (countsMsg 3) countsSchema =
    [8, 3, 0, 0, 0] := by
  decide +kernel

theorem sendable_counts : Sendable strtodExample sprintfExample senderTables receiverTables
    ⟨0, "counts", countsMsg 3⟩ := by
  refine ⟨by decide, ⟨rfl, by decide, fun h => ?_, fun _ => ⟨by decide, by decide⟩⟩,
    .inr ⟨.obj [("counts", countsSchema)], countsSchema, rfl, counts_defined,
      (exact_countsSchema _).conforming, conforms_countsMsg _ 3,
      (fits_countsMsg_iff _ 3).mpr (by decide), by simp [countsMsg_wire], ?_⟩⟩
  · rw [counts_code] at h
    exact absurd h (by decide)
  · exact ⟨_, countsMsg_text, by rw [countsMsg_wire]; decide⟩

/-- The request has a code for the route and the text for a body. -/
theorem chatSend_encoded : defaultMsgEncodeCb (dumpsText sprintfExample) senderTables [] 7
    (utf8Bytes "chat.send") (some printableExample) =
      .ok (⟨33, [1, 7, 0, 3] ++ utf8Bytes "\x7b\"a\":[-1,1.5,\"x\\n\"],\"b\":null\x7d"⟩, []) := by
  have htext : dumpsText sprintfExample printableExample =
      some (utf8Bytes "\x7b\"a\":[-1,1.5,\"x\\n\"],\"b\":null\x7d") := by
    decide +kernel
  rw [defaultMsgEncodeCb, encodeBody_of_undefined chatSend_undefined, htext]
  simp only [ok_bind, encodeRouted, chatSend_code]
  rfl

/-- The notify has the route and the protobuf for a body. -/
theorem counts_encoded : defaultMsgEncodeCb (dumpsText sprintfExample) senderTables [] 0
    (utf8Bytes "counts") (some (countsMsg 3)) =
      .ok (⟨13, [2, 6] ++ utf8Bytes "counts" ++ [8, 3, 0, 0, 0]⟩, []) := by
  have hbody : encodeBody (dumpsText sprintfExample) senderTables [] (utf8Bytes "counts")
      (some (countsMsg 3)) = .ok ([8, 3, 0, 0, 0], []) := by
    have hwritten : pcPbEncode (scratchSize (utf8Bytes "\x7b\"a\":[0,0,0]\x7d"))
        (.obj [("counts", countsSchema)]) countsSchema (countsMsg 3) = .ok [8, 3, 0, 0, 0] :=
      (pcPbEncode_eq_ok_iff (exact_countsSchema _).conforming (conforms_countsMsg _ 3)
        (by decide +kernel)).mpr
        ⟨countsMsg_wire.symm, by rw [countsMsg_wire]; decide⟩
    rw [scratchSize] at hwritten
    rw [encodeBody_of_def rfl counts_defined]
    simp only [pbEncodeBody, jsonEncode, Option.bind_some, countsMsg_text, hwritten]
    rfl
  rw [defaultMsgEncodeCb, hbody]
  simp only [ok_bind, encodeRouted, counts_code]
  rfl

theorem messages_arrive_example :
    ∃ bufs pkgs, Encoded sprintfExample senderTables outgoingExample bufs ∧
      (bufs.map fun buf => (pkgData, buf.base)).mapM (fun p => pkgEncode [] p.1 p.2) = some pkgs ∧
      ∀ chunks : List Bytes, chunks.flatten = pkgs.flatten →
        ∃ s, feedChunks [] ⟨pkgParserNew, []⟩ chunks =
            some (List.replicate chunks.length 0, s) ∧
          List.Forall₂ (CallArrives strtodExample sprintfExample senderTables receiverTables)
            s.calls outgoingExample := by
  have hbufs : Encoded sprintfExample senderTables outgoingExample
      [⟨33, [1, 7, 0, 3] ++ utf8Bytes "\x7b\"a\":[-1,1.5,\"x\\n\"],\"b\":null\x7d"⟩,
        ⟨13, [2, 6] ++ utf8Bytes "counts" ++ [8, 3, 0, 0, 0]⟩] :=
    .cons ⟨[], [], chatSend_encoded⟩ (.cons ⟨[], [], counts_encoded⟩ .nil)
  have hsend : ∀ out ∈ outgoingExample,
      Sendable strtodExample sprintfExample senderTables receiverTables out :=
    List.forall_mem_cons.mpr ⟨sendable_chatSend, List.forall_mem_singleton.mpr sendable_counts⟩
  obtain ⟨pkgs, hpkgs, harrive⟩ := messages_arrive hsend hbufs (by decide +kernel)
  exact ⟨_, pkgs, hbufs, hpkgs, harrive⟩

end Libpomelo
