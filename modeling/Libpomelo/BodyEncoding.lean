import Libpomelo.JsonDump
import Libpomelo.PbSizing
import Libpomelo.RouteDictionary

/-!
# Bodies that could not be encoded

A failure of `pc_pb_encode` should travel through `pc__pb_encode` to
`pc__default_msg_encode_cb` as the length `-1`. `pc__pb_encode` has one variable for
the length and for the error, and sets it only where the allocation of its scratch
buffer fails. Where the encoder refuses the message, or its text could not be printed,
the length is still the `0` that the buffer was cleared to, and the caller sends a
message with an empty body.
-/

namespace Libpomelo

section Body

variable {dumps : Json → Option Bytes} {t : Tables} {route : Bytes} {gprotos pbDef msg : Json}

/-- The size of the scratch buffer for a text. -/
def scratchSize (text : Bytes) : ℕ := text.length * pbEvalFactor

/-- **Failures are reported.** For a route with the definition `pbDef`: where
`pc_pb_encode` returns `0`, both its caller and the caller of that return `-1`; and what
goes out has the complete encoding as its body. -/
structure ReportsFailure (dumps : Json → Option Bytes) (t : Tables) (route : Bytes)
    (gprotos pbDef msg : Json) : Prop where
  /-- a refusal is handed on -/
  refused : ∀ ms reqId text, dumps msg = some text →
    (mallocSize ms (scratchSize text)).1 = true →
    (∃ s, pcPbEncode (scratchSize text) gprotos pbDef msg = .error (.refused, s)) →
    pbEncodeBody dumps ms gprotos pbDef (some msg) = .error .failed ∧
      defaultMsgEncodeCb dumps t ms reqId route (some msg) = .error .failed
  /-- a message has the encoding as its body -/
  complete : ∀ ms reqId buf ms', defaultMsgEncodeCb dumps t ms reqId route (some msg) =
    .ok (buf, ms') →
    ∃ body ms₁, encoding gprotos msg pbDef = .ok body ∧
      (encodeRouted t ms₁ reqId route body).1 = some buf

/-- **Fits.** The message has an encoding by the definition, and it is at most
twice as long as the text. Beside that: a text for which no scratch buffer can be
allocated, a message that runs into a `NULL` string before the buffer is full or is
copied beyond it, and an empty encoding of a message that could not be printed. -/
def FitsScratch (dumps : Json → Option Bytes) (gprotos pbDef msg : Json) : Prop :=
  (dumps msg = none ∧ encoding gprotos msg pbDef = .ok []) ∨
    ∃ text, dumps msg = some text ∧
      (2 ^ 63 ≤ scratchSize text ∨
        (∃ w, encoding gprotos msg pbDef = .ok w ∧ w.length ≤ scratchSize text) ∨
        (∃ v, encoding gprotos msg pbDef = .error (.nullString, v) ∧
          v.length ≤ scratchSize text) ∨
        scratchSize text < (encoding gprotos msg pbDef).size ∧
          shortage gprotos msg pbDef (pbOstreamFromBuffer (scratchSize text)) ≠ .refused)

/-- `pc_pb_encode` does not return `0` exactly when the encoding fits, a `NULL` string is
met before the buffer is full, or a write without room is not refused. -/
theorem pcPbEncode_refused_iff {len : ℕ} (hlen : len < 2 ^ 63) :
    (∃ s, pcPbEncode len gprotos pbDef msg = .error (.refused, s)) ↔
      ¬ ((∃ w, encoding gprotos msg pbDef = .ok w ∧ w.length ≤ len) ∨
        (∃ v, encoding gprotos msg pbDef = .error (.nullString, v) ∧ v.length ≤ len) ∨
        len < (encoding gprotos msg pbDef).size ∧
          shortage gprotos msg pbDef (pbOstreamFromBuffer len) ≠ .refused) := by
  have hstays := (does_pbEncode gprotos msg pbDef).stays
  obtain hshort | hroom := Nat.lt_or_ge len (encoding gprotos msg pbDef).size
  · -- the buffer is full before the end, or before what stops the encoder
    obtain ⟨s, hs⟩ := pcPbEncode_of_short hlen hshort
    rw [hs]
    rcases henc : encoding gprotos msg pbDef with ⟨stop, v⟩ | w
    · rw [henc] at hshort
      have hlt : len < v.length := hshort
      simp [Encoding.size, hlt, Nat.not_le.mpr hlt]
    · rw [henc] at hshort
      have hlt : len < w.length := hshort
      simp [Encoding.size, hlt, Nat.not_le.mpr hlt]
  · rcases henc : encoding gprotos msg pbDef with ⟨stop, v⟩ | w
    · -- the encoder gets as far as its own stop
      rw [henc] at hroom hstays
      obtain ⟨s, hs⟩ := pcPbEncode_of_stop hlen henc hroom
      have hle : v.length ≤ len := hroom
      rw [hs]
      cases stop with
      | refused => simp [Encoding.size, Nat.not_lt.mpr hle]
      | nullString => simp [hle]
      | overrun => exact absurd rfl (hstays v)
    · rw [henc] at hroom
      have hle : w.length ≤ len := hroom
      rw [pcPbEncode_of_encoding henc hlen hle]
      simp [hle]

/-- A block that was allocated exists. -/
theorem lt_of_mallocSize {ms : List Bool} {n : ℕ} (h : (mallocSize ms n).1 = true) : n < 2 ^ 63 := by
  rw [mallocSize, Bool.and_eq_true, decide_eq_true_eq] at h
  exact h.2

/-- What `pc__pb_encode` returns, by what happens in it. -/
theorem pbEncodeBody_refused {ms : List Bool} {text : Bytes} (htext : dumps msg = some text)
    (halloc : (mallocSize ms (scratchSize text)).1 = true)
    (h : ∃ s, pcPbEncode (scratchSize text) gprotos pbDef msg = .error (.refused, s)) :
    pbEncodeBody dumps ms gprotos pbDef (some msg) =
      .ok ([], (mallocSize ms (scratchSize text)).2) := by
  obtain ⟨s, hs⟩ := h
  rw [scratchSize] at halloc hs
  simp only [pbEncodeBody, jsonEncode, Option.bind_some, htext, halloc, if_true, hs, scratchSize]

theorem pbEncodeBody_ok {ms ms' : List Bool} {text body : Bytes} (htext : dumps msg = some text)
    (h : pbEncodeBody dumps ms gprotos pbDef (some msg) = .ok (body, ms')) :
    (mallocSize ms (scratchSize text)).1 = true ∧
      (pcPbEncode (scratchSize text) gprotos pbDef msg = .ok body ∨
        ∃ s, pcPbEncode (scratchSize text) gprotos pbDef msg = .error (.refused, s)) := by
  simp only [pbEncodeBody, jsonEncode, Option.bind_some, htext] at h
  split at h
  · next halloc =>
    refine ⟨halloc, ?_⟩
    rw [scratchSize]
    split at h
    · next w hw =>
      obtain ⟨rfl, -⟩ := Prod.mk.inj (Except.ok.inj h)
      exact .inl hw
    · next s hs => exact .inr ⟨s, hs⟩
    · cases h
    · cases h
  · cases h

theorem encodeBody_of_def (hprotos : t.clientProtos = some gprotos)
    (hdef : jsonObjectGetText t.clientProtos route = some pbDef) (ms : List Bool) :
    encodeBody dumps t ms route (some msg) = pbEncodeBody dumps ms gprotos pbDef (some msg) := by
  rw [encodeBody, hdef]
  rw [hprotos]

/-- Otherwise it puts the header in front of the body. -/
theorem defaultMsgEncodeCb_eq_ok (hprotos : t.clientProtos = some gprotos)
    (hdef : jsonObjectGetText t.clientProtos route = some pbDef) {ms ms' : List Bool} {reqId : ℕ}
    {buf : MsgBuf} :
    defaultMsgEncodeCb dumps t ms reqId route (some msg) = .ok (buf, ms') ↔
      ∃ body ms₁, pbEncodeBody dumps ms gprotos pbDef (some msg) = .ok (body, ms₁) ∧
        encodeRouted t ms₁ reqId route body = (some buf, ms') := by
  rw [defaultMsgEncodeCb, encodeBody_of_def hprotos hdef, bind_eq_ok]
  constructor
  · rintro ⟨⟨body, ms₁⟩, hbody, h⟩
    refine ⟨body, ms₁, hbody, ?_⟩
    dsimp only at h
    split at h
    · next buf' ms₂ hrouted =>
      obtain ⟨rfl, rfl⟩ := Prod.mk.inj (Except.ok.inj h)
      exact hrouted
    · cases h
  · rintro ⟨body, ms₁, hbody, hrouted⟩
    exact ⟨(body, ms₁), hbody, by simp only [hrouted]⟩

/-- What stands in front of the body depends on neither the body nor the allocator. -/
theorem encodeRouted_base (t : Tables) (reqId : ℕ) (route : Bytes) :
    ∃ header, ∀ ms body buf, (encodeRouted t ms reqId route body).1 = some buf →
      buf.base = header ++ body := by
  have hroute := encodeType_hasRoute reqId
  by_cases hcode : 0 < routeCode t route
  · refine ⟨msgHeader (encodeType reqId) true reqId ++ msgRouteCode (routeCode t route),
      fun ms body buf h => ?_⟩
    rw [encodeRouted, if_pos hcode] at h
    rw [msgEncodeCode_eq (Prod.ext h rfl), hroute, if_pos rfl, if_pos rfl,
      List.append_assoc]
  · refine ⟨msgHeader (encodeType reqId) false reqId ++
      msgEncodeRouteText route (route.length % 2 ^ 16), fun ms body buf h => ?_⟩
    rw [encodeRouted, if_neg hcode, msgEncodeRoute_eq hroute] at h
    split at h
    · obtain rfl := Option.some.inj h
      rw [List.append_assoc]
    · cases h

/-- A notify without a body is always encoded when memory does not run out. -/
theorem exists_encodeRouted_nil (t : Tables) (route : Bytes) :
    ∃ buf ms', encodeRouted t [] 0 route [] = (some buf, ms') := by
  have hmod : route.length % 2 ^ 16 < 2 ^ 16 := Nat.mod_lt _ (by decide)
  by_cases hcode : 0 < routeCode t route
  · rw [encodeRouted, if_pos hcode]
    exact ⟨_, _, rfl⟩
  · rw [encodeRouted, if_neg hcode]
    apply exists_msgEncodeRoute rfl
    show 1 + 0 + 1 + route.length % 2 ^ 16 + 0 < 2 ^ 63
    omega

end Body

/-- **When failures are reported.** For every client tables, route with a protobuf
definition and message: a failure of `pc_pb_encode` is reported, and no message goes out
without its complete body, if and only if the encoding of the message fits. -/
theorem reportsFailure_iff {dumps : Json → Option Bytes} {t : Tables} {route : Bytes}
    {gprotos pbDef : Json} (hprotos : t.clientProtos = some gprotos)
    (hdef : jsonObjectGetText t.clientProtos route = some pbDef) (msg : Json) :
    ReportsFailure dumps t route gprotos pbDef msg ↔ FitsScratch dumps gprotos pbDef msg := by
  constructor
  · intro h
    rcases htext : dumps msg with _ | text
    · -- the message goes out without a body
      have hbody : pbEncodeBody dumps [] gprotos pbDef (some msg) = .ok ([], []) := by
        simp only [pbEncodeBody, jsonEncode, Option.bind_some, htext]
      obtain ⟨buf, ms', hrouted⟩ := exists_encodeRouted_nil t route
      obtain ⟨body, ms₁, henc, hbuf⟩ := h.complete [] 0 buf ms'
        ((defaultMsgEncodeCb_eq_ok hprotos hdef).mpr ⟨[], [], hbody, hrouted⟩)
      obtain ⟨header, hbase⟩ := encodeRouted_base t 0 route
      have hsame := (hbase ms₁ body buf hbuf).symm.trans
        (hbase [] [] buf (congrArg Prod.fst hrouted))
      obtain rfl := List.append_cancel_left hsame
      exact .inl ⟨htext, henc⟩
    · refine .inr ⟨text, htext, ?_⟩
      by_cases hsize : 2 ^ 63 ≤ scratchSize text
      · exact .inl hsize
      · refine .inr ?_
        by_contra hno
        have halloc : (mallocSize [] (scratchSize text)).1 = true :=
          decide_eq_true (Nat.not_le.mp hsize)
        have hrefused := (pcPbEncode_refused_iff (Nat.not_le.mp hsize)).mpr hno
        have hfailed := (h.refused [] 0 text htext halloc hrefused).1
        rw [pbEncodeBody_refused htext halloc hrefused] at hfailed
        cases hfailed
  · rintro (⟨htext, henc⟩ | ⟨text, htext, hcases⟩)
    · refine ⟨fun ms reqId text h => ?_, fun ms reqId buf ms' hcb => ?_⟩
      · rw [htext] at h
        cases h
      · obtain ⟨body, ms₁, hbody, hrouted⟩ := (defaultMsgEncodeCb_eq_ok hprotos hdef).mp hcb
        simp only [pbEncodeBody, jsonEncode, Option.bind_some, htext] at hbody
        obtain ⟨rfl, rfl⟩ := Prod.mk.inj (Except.ok.inj hbody)
        exact ⟨[], _, henc, congrArg Prod.fst hrouted⟩
    · -- no scratch buffer is both allocated and too small
      have hfits : ∀ ms, (mallocSize ms (scratchSize text)).1 = true →
          ¬ ∃ s, pcPbEncode (scratchSize text) gprotos pbDef msg = .error (.refused, s) := by
        intro ms halloc hrefused
        have hsize := lt_of_mallocSize halloc
        rcases hcases with hlarge | hcases
        · omega
        · exact (pcPbEncode_refused_iff hsize).mp hrefused hcases
      refine ⟨fun ms reqId text' h halloc hrefused => ?_, fun ms reqId buf ms' hcb => ?_⟩
      · obtain rfl := Option.some.inj (htext.symm.trans h)
        exact absurd hrefused (hfits ms halloc)
      · obtain ⟨body, ms₁, hbody, hrouted⟩ := (defaultMsgEncodeCb_eq_ok hprotos hdef).mp hcb
        obtain ⟨halloc, hok | hrefused⟩ := pbEncodeBody_ok htext hbody
        · have hsize := lt_of_mallocSize halloc
          exact ⟨body, ms₁, ((pcPbEncode_eq_ok hsize).mp hok).1, congrArg Prod.fst hrouted⟩
        · exact absurd hrefused (hfits ms halloc)

/-- A client whose server defines the body of `chat.send`. -/
def chatTables : Tables := ⟨none, none, none, some (.obj [("chat.send", nestedLevel)])⟩

/-- `%.17g` as far as it is used, for zero. -/
def zeroDtostr : FiniteDouble → Bytes := fun _ => utf8Bytes "0.0"

theorem chatTables_def :
    jsonObjectGetText chatTables.clientProtos (utf8Bytes "chat.send") = some nestedLevel := by
  rw [jsonObjectGetText, fromUTF8_utf8Bytes]
  rfl

/-- The nested message goes out whole. -/
theorem reportsFailure_nested : ReportsFailure (jsonDumps zeroDtostr) chatTables (utf8Bytes "chat.send")
    (.obj [("chat.send", nestedLevel)]) nestedLevel nestedMsg := by
  refine (reportsFailure_iff rfl chatTables_def nestedMsg).mpr (.inr ⟨_, rfl, .inr (.inl ?_)⟩)
  have henc : encoding (.obj [("chat.send", nestedLevel)]) nestedMsg nestedLevel =
      .ok [10, 5, 16, 2, 1, 172, 2] := by
    decide +kernel
  exact ⟨_, henc, by decide +kernel⟩

/-- A message with a key that the definition does not know is refused by `pc_pb_encode`
and sent as a notify without a body. -/
theorem not_reportsFailure_unknown :
    (∃ s, pcPbEncode 14 (.obj [("chat.send", nestedLevel)]) nestedLevel (.obj [("x", .int 1)]) =
      .error (.refused, s)) ∧
    (∃ buf ms', defaultMsgEncodeCb (jsonDumps zeroDtostr) chatTables [] 0 (utf8Bytes "chat.send")
      (some (.obj [("x", .int 1)])) = .ok (buf, ms') ∧
        buf.base = 2 :: 9 :: utf8Bytes "chat.send") ∧
    ¬ ReportsFailure (jsonDumps zeroDtostr) chatTables (utf8Bytes "chat.send")
      (.obj [("chat.send", nestedLevel)]) nestedLevel (.obj [("x", .int 1)]) := by
  have hrefused : ∃ s, pcPbEncode 14 (.obj [("chat.send", nestedLevel)]) nestedLevel
      (.obj [("x", .int 1)]) = .error (.refused, s) := ⟨_, rfl⟩
  refine ⟨hrefused, ⟨_, _, rfl, rfl⟩, fun h => ?_⟩
  have hfailed := (h.refused [] 0 _ rfl (by decide +kernel) hrefused).2
  cases hfailed

end Libpomelo
