import Libpomelo.Message
import Mathlib.Tactic

/-!
# Messages on the wire

What `pc_msg_decode` makes of the output of the two encoders of `message.c`. The two
forms share the flag byte and the base-128 id and differ in the route:

* by code, every message comes back (`msgDecode_undoes_msgEncodeCode`), and the stored
  bytes fill the allocation;
* by text, the length of the route is one byte. The writer masks it and the reader
  takes it for a signed `char`, so a route comes back only below 128 bytes
  (`msgDecode_msgEncodeRoute_iff`).

The encoder by text reports no error for a route that its length byte cannot express.
Up to 255 bytes the encoding is injective, beyond it two messages can share their
bytes (`distinguished_iff`).
-/

namespace Libpomelo

/-! ## Message ids on the wire -/

/-- Reading back a written id, in turn `i` of the decoder with `n` turns of the encoder
left. -/
theorem msgDecodeId_loop (rest : Bytes) :
    ∀ (n i id acc : ℕ), i + n = 5 → id < 2 ^ (32 - 7 * i) → acc + id * 2 ^ (7 * i) < 2 ^ 32 →
      0 < n →
      msgDecodeId (msgEncodeIdLoop n id ++ rest) i acc = .ok (acc + id * 2 ^ (7 * i), rest) := by
  intro n
  induction n with
  | zero =>
    intro i id acc _ _ _ hpos
    exact absurd hpos (Nat.lt_irrefl 0)
  | succ n ih =>
    intro i id acc hin hid hacc _
    have hshift : ¬ 32 ≤ 7 * i := by omega
    by_cases hmore : id / 128 = 0
    · -- the last group
      have hsmall : id < 128 := by omega
      have hbyte : (UInt8.ofNat (id % 128)).toNat = id := by
        rw [UInt8.toNat_ofNat', Nat.mod_eq_of_lt (by omega)]
        omega
      have hlow : id &&& 0x7f = id := by
        rw [Nat.and_two_pow_sub_one_eq_mod id 7, Nat.mod_eq_of_lt hsmall]
      have hend : ¬ 128 ≤ id := by omega
      simp only [msgEncodeIdLoop, hmore, ne_eq, not_true, if_false, List.singleton_append,
        msgDecodeId, hshift, hbyte, hlow, hend, Nat.mod_eq_of_lt hacc]
    · -- a group with the continuation bit
      have hn : 0 < n := by
        rcases Nat.eq_zero_or_pos n with rfl | hn
        · have : i = 4 := by omega
          subst this
          norm_num at hid
          omega
        · exact hn
      have hbyte : (UInt8.ofNat (id % 128 + 128)).toNat = id % 128 + 128 := by
        rw [UInt8.toNat_ofNat', Nat.mod_eq_of_lt (by omega)]
      have hlow : (id % 128 + 128) &&& 0x7f = id % 128 := by
        rw [Nat.and_two_pow_sub_one_eq_mod _ 7]
        omega
      have hsplit : acc + id % 128 * 2 ^ (7 * i) + id / 128 * 2 ^ (7 * (i + 1)) =
          acc + id * 2 ^ (7 * i) := by
        have hid' : id = id % 128 + id / 128 * 128 := by omega
        rw [Nat.mul_succ, pow_add]
        nth_rewrite 3 [hid']
        ring
      have hacc' : acc + id % 128 * 2 ^ (7 * i) < 2 ^ 32 := by
        have := Nat.zero_le (id / 128 * 2 ^ (7 * (i + 1)))
        omega
      have hid' : id / 128 < 2 ^ (32 - 7 * (i + 1)) := by
        have hpow : 2 ^ (32 - 7 * i) = 2 ^ (32 - 7 * (i + 1)) * 128 := by
          rw [show 32 - 7 * i = 32 - 7 * (i + 1) + 7 by omega, pow_add]
          rfl
        rw [hpow] at hid
        exact Nat.div_lt_of_lt_mul (by rwa [Nat.mul_comm])
      have hnext := ih (i + 1) (id / 128) (acc + id % 128 * 2 ^ (7 * i)) (by omega) hid'
        (by rw [hsplit]; exact hacc) hn
      rw [hsplit] at hnext
      have hcont : 128 ≤ id % 128 + 128 := Nat.le_add_left _ _
      simp only [msgEncodeIdLoop, hmore, ne_eq, not_false_eq_true, if_true, List.cons_append,
        msgDecodeId, hshift, if_false, hbyte, hlow, hcont, Nat.mod_eq_of_lt hacc']
      exact hnext

/-- **Ids round-trip.** Every `uint32_t` id is read back, and nothing behind it. -/
theorem msgDecodeId_msgEncodeId {id : ℕ} (h : id < 2 ^ 32) (rest : Bytes) :
    msgDecodeId (msgEncodeId id ++ rest) 0 0 = .ok (id, rest) := by
  have hloop := msgDecodeId_loop rest 5 0 id 0 rfl (by simpa using h) (by simpa using h)
    (by decide)
  simpa [msgEncodeId] using hloop

theorem msgEncodeId_ne_nil (id : ℕ) : msgEncodeId id ≠ [] := by
  rw [msgEncodeId, msgEncodeIdLoop]
  split <;> simp

/-! ## Route codes on the wire -/

theorem msgDecodeFlag (type : MsgType) (compress : Bool) :
    ∃ flag : UInt8, msgEncodeFlag type compress = [flag] ∧
      MsgType.ofCode (flag.toNat >>> 1) = some type ∧
      decide (flag.toNat &&& 1 = 1) = compress := by
  refine ⟨_, rfl, ?_, ?_⟩ <;> cases type <;> cases compress <;> decide

/-- A code that fits in sixteen bits is read back from its two bytes. -/
theorem msgDecodeRoute_msgRouteCode {code : ℤ} (hpos : 0 ≤ code) (hlt : code < 2 ^ 16)
    (ms : List Bool) (len : ℕ) (rest : Bytes) :
    msgDecodeRoute ms true len (msgRouteCode code ++ rest) = .ok (code.toNat, none, rest, ms) := by
  obtain ⟨n, rfl⟩ := Int.eq_ofNat_of_zero_le hpos
  have hn : n < 65536 := by
    norm_num at hlt
    exact_mod_cast hlt
  have hhi : (UInt8.ofNat ((n : ℤ) / 0x100 % 0x100).toNat).toNat = n / 256 := by
    rw [UInt8.toNat_ofNat']
    omega
  have hlo : (UInt8.ofNat ((n : ℤ) % 0x100).toNat).toNat = n % 256 := by
    rw [UInt8.toNat_ofNat']
    omega
  have hjoin : (n / 256) <<< 8 ||| n % 256 = n := by
    rw [Nat.shiftLeft_eq, Nat.mul_comm, ← Nat.two_pow_add_eq_or_of_lt (Nat.mod_lt n (by decide))]
    exact Nat.div_add_mod n 256
  simp only [msgDecodeRoute, msgRouteCode, List.cons_append, List.nil_append, if_true, hhi, hlo,
    hjoin, Int.toNat_natCast]

/-! ## The two forms -/

/-- The bytes in front of the route: flag and id. -/
def msgHeader (type : MsgType) (compressRoute : Bool) (id : ℕ) : Bytes :=
  msgEncodeFlag type compressRoute ++ if type.hasId then msgEncodeId id else []

/-- What `pc_msg_encode_code` stores. -/
theorem msgEncodeCode_eq {ms ms' : List Bool} {id : ℕ} {type : MsgType} {code : ℤ} {body : Bytes}
    {buf : MsgBuf} (h : msgEncodeCode ms id type code body = (some buf, ms')) :
    buf = ⟨1 + (if type.hasId then msgIdLength id else 0) + (if type.hasRoute then 2 else 0) +
      body.length, msgHeader type true id ++ ((if type.hasRoute then msgRouteCode code else []) ++
        body)⟩ := by
  by_cases hok : (mallocSize ms (1 + (if type.hasId then msgIdLength id else 0) +
      (if type.hasRoute then 2 else 0) + body.length)).1 = true
  · simp only [msgEncodeCode, if_pos hok, Prod.mk.injEq, Option.some.injEq] at h
    rw [← h.1, msgHeader, List.append_assoc, List.append_assoc]
  · simp [msgEncodeCode, if_neg hok] at h

/-- The size that `pc_msg_encode_route` allocates. -/
def msgRouteSize (id : ℕ) (type : MsgType) (route body : Bytes) : ℕ :=
  1 + (if type.hasId then msgIdLength id else 0) + 1 +
    (if type.hasRoute then route.length % 2 ^ 16 else 0) + body.length

/-- What `pc_msg_encode_route` stores, for a type with a route. -/
theorem msgEncodeRoute_eq {type : MsgType} (htype : type.hasRoute = true) (ms : List Bool)
    (id : ℕ) (route body : Bytes) :
    (msgEncodeRoute ms id type route body).1 =
      if (mallocSize ms (msgRouteSize id type route body)).1 = true then
        some ⟨msgRouteSize id type route body, msgHeader type false id ++
          (msgEncodeRouteText route (route.length % 2 ^ 16) ++ body)⟩
      else none := by
  by_cases hok : (mallocSize ms (msgRouteSize id type route body)).1 = true
  · have hok' := hok
    rw [msgRouteSize] at hok'
    simp only [msgEncodeRoute, if_pos hok']
    rw [if_pos hok, msgHeader, msgRouteSize, htype, if_pos rfl, if_pos rfl, List.append_assoc,
      List.append_assoc]
  · have hok' := hok
    rw [msgRouteSize] at hok'
    simp only [msgEncodeRoute, if_neg hok']
    rw [if_neg hok]

/-! ## Reading a message back -/

/-- The decoder behind a header: the route, if the type has one, and the body. -/
theorem msgDecode_header {type : MsgType} {compressRoute : Bool} {id : ℕ} (hid : id < 2 ^ 32)
    (rest : Bytes) :
    msgDecode [] (msgHeader type compressRoute id ++ rest) =
      (if type.hasRoute then msgDecodeRoute [] compressRoute
          (msgHeader type compressRoute id ++ rest).length rest
        else .ok (0, none, rest, [])) >>= fun r =>
      if r.2.2.1 = [] then
        .ok (⟨if type.hasId then id else 0, type, compressRoute, r.1, r.2.1, r.2.2.1⟩, r.2.2.2)
      else if (malloc r.2.2.2).1 = true then
        .ok (⟨if type.hasId then id else 0, type, compressRoute, r.1, r.2.1, r.2.2.1⟩,
          (malloc r.2.2.2).2)
      else .error .badCopy := by
  obtain ⟨flag, hflag, htype, hcompress⟩ := msgDecodeFlag type compressRoute
  by_cases hhas : type.hasId = true
  · -- the id stands between the flag and the route
    have hbytes : msgHeader type compressRoute id ++ rest = flag :: (msgEncodeId id ++ rest) := by
      rw [msgHeader, hflag, if_pos hhas, List.append_assoc, List.singleton_append]
    have hne : msgEncodeId id ++ rest ≠ [] := by simp [msgEncodeId_ne_nil]
    rw [hbytes]
    simp only [msgDecode, malloc, not_true, if_false, htype, hhas, if_true, hne,
      msgDecodeId_msgEncodeId hid, bind, Except.bind, hcompress]
  · have hbytes : msgHeader type compressRoute id ++ rest = flag :: rest := by
      rw [msgHeader, hflag, if_neg hhas, List.append_nil, List.singleton_append]
    rw [hbytes]
    simp only [Bool.not_eq_true] at hhas
    simp only [msgDecode, malloc, not_true, if_false, htype, hhas, bind, Except.bind, hcompress,
      Bool.false_eq_true]

/-- A message is its header, a route that the decoder reads and the body behind it. -/
theorem msgDecode_parts {type : MsgType} {compressRoute : Bool} {id routeCode : ℕ}
    {routeStr : Option Bytes} {w body : Bytes} (hid : id < 2 ^ 32)
    (hroute : (if type.hasRoute then msgDecodeRoute [] compressRoute
        (msgHeader type compressRoute id ++ (w ++ body)).length (w ++ body)
      else .ok (0, none, w ++ body, [])) = .ok (routeCode, routeStr, body, [])) :
    msgDecode [] (msgHeader type compressRoute id ++ (w ++ body)) =
      .ok (⟨if type.hasId then id else 0, type, compressRoute, routeCode, routeStr, body⟩, []) := by
  rw [msgDecode_header hid, hroute]
  exact ite_self _

/-- **Decoding undoes encoding by code**, for each of the four types. -/
theorem msgDecode_msgEncodeCode {ms ms' : List Bool} {id : ℕ} {type : MsgType} {code : ℤ}
    {body : Bytes} {buf : MsgBuf} (hid : id < 2 ^ 32) (hpos : 0 ≤ code) (hlt : code < 2 ^ 16)
    (henc : msgEncodeCode ms id type code body = (some buf, ms')) :
    msgDecode [] buf.base = .ok (⟨if type.hasId then id else 0, type, true,
      if type.hasRoute then code.toNat else 0, none, body⟩, []) := by
  rw [msgEncodeCode_eq henc]
  apply msgDecode_parts hid
  by_cases hroute : type.hasRoute = true
  · rw [if_pos hroute, if_pos hroute, if_pos hroute, msgDecodeRoute_msgRouteCode hpos hlt]
  · rw [if_neg hroute, if_neg hroute, if_neg hroute, List.nil_append]

/-- The id loop and the loop that sizes the buffer take the same turns. -/
theorem length_msgEncodeIdLoop (n : ℕ) :
    ∀ id, (msgEncodeIdLoop n id).length = msgIdLengthLoop n id := by
  induction n with
  | zero => exact fun _ => rfl
  | succ n ih =>
    intro id
    have hshift : id >>> 7 = id / 128 := Nat.shiftRight_eq_div_pow id 7
    rw [msgEncodeIdLoop, msgIdLengthLoop, hshift]
    by_cases hmore : id / 128 = 0
    · simp [hmore]
    · rw [if_pos hmore, if_pos (Nat.pos_of_ne_zero hmore), List.length_cons, ih, Nat.add_comm]

theorem length_msgEncodeId (id : ℕ) : (msgEncodeId id).length = msgIdLength id :=
  length_msgEncodeIdLoop 5 id

theorem length_msgHeader (type : MsgType) (compressRoute : Bool) (id : ℕ) :
    (msgHeader type compressRoute id).length =
      1 + if type.hasId then msgIdLength id else 0 := by
  rw [msgHeader, List.length_append, apply_ite List.length, length_msgEncodeId]
  rfl

/-- **By code.** For every id, type, code and body: what `pc_msg_encode_code` returns is
decoded to the same type, id, code and body, and the bytes it stored are as many as it
allocated. -/
theorem msgDecode_undoes_msgEncodeCode {ms ms' : List Bool} {id : ℕ} {type : MsgType} {code : ℤ}
    {body : Bytes} {buf : MsgBuf} (hid : id < 2 ^ 32) (hpos : 0 ≤ code) (hlt : code < 2 ^ 16)
    (henc : msgEncodeCode ms id type code body = (some buf, ms')) :
    msgDecode [] buf.base = .ok (⟨if type.hasId then id else 0, type, true,
        if type.hasRoute then code.toNat else 0, none, body⟩, []) ∧
      buf.base.length = buf.len := by
  refine ⟨msgDecode_msgEncodeCode hid hpos hlt henc, ?_⟩
  rw [msgEncodeCode_eq henc]
  simp only [List.length_append, length_msgHeader, apply_ite List.length]
  rw [← Nat.add_assoc]
  rfl

/-- A response with the largest id and a request by the largest code. -/
theorem msgDecode_undoes_msgEncodeCode_largest :
    (∃ buf, msgEncodeCode [] (2 ^ 32 - 1) .response 5 [123, 125] = (some buf, []) ∧
      msgDecode [] buf.base = .ok (⟨2 ^ 32 - 1, .response, true, 0, none, [123, 125]⟩, [])) ∧
    ∃ buf, msgEncodeCode [] 1 .request 65535 [] = (some buf, []) ∧
      msgDecode [] buf.base = .ok (⟨1, .request, true, 65535, none, []⟩, []) := by
  have hresponse : ∃ buf, msgEncodeCode [] (2 ^ 32 - 1) .response 5 [123, 125] =
      (some buf, []) := ⟨_, rfl⟩
  have hrequest : ∃ buf, msgEncodeCode [] 1 .request 65535 [] = (some buf, []) := ⟨_, rfl⟩
  obtain ⟨buf, hresponse⟩ := hresponse
  obtain ⟨buf', hrequest⟩ := hrequest
  exact ⟨⟨buf, hresponse,
      (msgDecode_undoes_msgEncodeCode (by decide) (by decide) (by decide) hresponse).1⟩,
    ⟨buf', hrequest,
      (msgDecode_undoes_msgEncodeCode (by decide) (by decide) (by decide) hrequest).1⟩⟩

/-! ## Routes by text -/

/-- The length byte of a route below 128 bytes is its length. -/
theorem charToSize_small {n : ℕ} (h : n < 128) : charToSize (UInt8.ofNat (n &&& 0xff)) = n := by
  have hbyte : (UInt8.ofNat (n &&& 0xff)).toNat = n := by
    rw [UInt8.toNat_ofNat', Nat.and_two_pow_sub_one_eq_mod n 8]
    omega
  rw [charToSize, hbyte, if_pos h]

/-- From 128 to 255 bytes on, the `char` is negative. -/
theorem charToSize_large {n : ℕ} (hlo : 128 ≤ n) (hhi : n ≤ 255) :
    charToSize (UInt8.ofNat (n &&& 0xff)) = 2 ^ 64 - 256 + n := by
  have hbyte : (UInt8.ofNat (n &&& 0xff)).toNat = n := by
    rw [UInt8.toNat_ofNat', Nat.and_two_pow_sub_one_eq_mod n 8]
    omega
  rw [charToSize, hbyte, if_neg (by omega)]

/-- A short route is read back. -/
theorem msgDecodeRoute_text {route body : Bytes} {len : ℕ} (hpos : 1 ≤ route.length)
    (hlt : route.length < 128) (hlen : len < 2 ^ 63) (hin : route.length + body.length ≤ len) :
    msgDecodeRoute [] false len (msgEncodeRouteText route route.length ++ body) =
      .ok (0, some route, body, []) := by
  have hsize : mallocSize [] ((route.length + 1) % 2 ^ 64) = (true, []) := by
    have hsmall : (route.length + 1) % 2 ^ 64 < 2 ^ 63 := by omega
    simp only [mallocSize, malloc, hsmall, decide_true, Bool.and_self]
  have hinside : ¬ len < (len - (route ++ body).length + route.length) % 2 ^ 64 := by
    rw [List.length_append]
    omega
  have hread : ¬ (route ++ body).length < route.length := by
    rw [List.length_append]
    omega
  simp only [msgEncodeRouteText, List.cons_append, List.take_length, msgDecodeRoute,
    charToSize_small hlt, Nat.ne_of_gt hpos, hsize, hinside, hread, Bool.false_eq_true, if_false,
    not_true, List.take_left, List.drop_left]

/-- A route from 128 bytes on is not: its length is taken for at least `2 ^ 64 - 128`. -/
theorem msgDecodeRoute_long {route body : Bytes} {len : ℕ} (hlo : 128 ≤ route.length)
    (hhi : route.length ≤ 255) (hbody : route.length + body.length < 2 ^ 63)
    {r : ℕ × Option Bytes × Bytes × List Bool} :
    msgDecodeRoute [] false len (msgEncodeRouteText route route.length ++ body) ≠ .ok r := by
  have hne : ¬ 2 ^ 64 - 256 + route.length = 0 := by omega
  have hread : (route ++ body).length < 2 ^ 64 - 256 + route.length := by
    rw [List.length_append]
    omega
  simp only [msgEncodeRouteText, List.cons_append, List.take_length, msgDecodeRoute,
    charToSize_large hlo hhi, hne, hread, Bool.false_eq_true, if_false, if_true]
  split
  · simp
  · split
    · simp
    · simp

/-- The message comes back: its type, the uncompressed route, the id if it has one, and
the body. -/
def ComesBack (id : ℕ) (type : MsgType) (route body bytes : Bytes) : Prop :=
  ∃ raw, msgDecode [] bytes = .ok (raw, []) ∧ raw.type = type ∧ raw.compressRoute = false ∧
    raw.id = (if type.hasId then id else 0) ∧ raw.routeStr = some route ∧ raw.body = body

/-- **By text.** For every id, type with a route, route of 1 to 255 bytes and body: what
`pc_msg_encode_route` returns is decoded to the same message if and only if the route
is shorter than 128 bytes. -/
theorem msgDecode_msgEncodeRoute_iff {ms ms' : List Bool} {id : ℕ} {type : MsgType}
    {route body : Bytes} {buf : MsgBuf} (hid : id < 2 ^ 32) (htype : type.hasRoute = true)
    (hpos : 1 ≤ route.length) (hle : route.length ≤ 255)
    (henc : msgEncodeRoute ms id type route body = (some buf, ms')) :
    ComesBack id type route body buf.base ↔ route.length < 128 := by
  have hbuf := msgEncodeRoute_eq htype ms id route body
  rw [henc] at hbuf
  by_cases hok : (mallocSize ms (msgRouteSize id type route body)).1 = true
  case neg => rw [if_neg hok] at hbuf; cases hbuf
  rw [if_pos hok] at hbuf
  obtain rfl := Option.some.inj hbuf
  have hmod : route.length % 2 ^ 16 = route.length := Nat.mod_eq_of_lt (by omega)
  have hsize : msgRouteSize id type route body < 2 ^ 63 := by
    rw [mallocSize, Bool.and_eq_true, decide_eq_true_eq] at hok
    exact hok.2
  have hlength : (msgHeader type false id ++ (msgEncodeRouteText route route.length ++ body)).length =
      msgRouteSize id type route body := by
    rw [msgRouteSize, htype, if_pos rfl, hmod, List.length_append, length_msgHeader,
      List.length_append, msgEncodeRouteText, List.take_length, List.length_cons]
    omega
  have hroom : route.length + body.length < msgRouteSize id type route body := by
    rw [msgRouteSize, htype, if_pos rfl, hmod]
    omega
  dsimp only
  rw [hmod]
  constructor
  · rintro ⟨raw, hdec, -⟩
    -- from 128 on the length byte is a negative `char`
    by_contra hlong
    rw [msgDecode_header hid, if_pos htype] at hdec
    rcases hroute : msgDecodeRoute [] false
        (msgHeader type false id ++ (msgEncodeRouteText route route.length ++ body)).length
        (msgEncodeRouteText route route.length ++ body) with stop | r
    · rw [hroute] at hdec
      cases hdec
    · exact absurd hroute (msgDecodeRoute_long (Nat.not_lt.mp hlong) hle (by omega))
  · intro hshort
    have hroute : msgDecodeRoute [] false
        (msgHeader type false id ++ (msgEncodeRouteText route route.length ++ body)).length
        (msgEncodeRouteText route route.length ++ body) = .ok (0, some route, body, []) :=
      msgDecodeRoute_text hpos hshort (hlength ▸ hsize) (Nat.le_of_lt (hlength ▸ hroom))
    exact ⟨_, msgDecode_parts hid ((if_pos htype).trans hroute), rfl, rfl, rfl, rfl, rfl⟩

/-- With memory for it, a message is encoded. -/
theorem exists_msgEncodeRoute {id : ℕ} {type : MsgType} {route body : Bytes}
    (htype : type.hasRoute = true) (hsize : msgRouteSize id type route body < 2 ^ 63) :
    ∃ buf ms', msgEncodeRoute [] id type route body = (some buf, ms') := by
  have hbuf := msgEncodeRoute_eq htype [] id route body
  have hok : (mallocSize [] (msgRouteSize id type route body)).1 = true := decide_eq_true hsize
  rw [if_pos hok] at hbuf
  exact ⟨_, _, Prod.ext hbuf rfl⟩

/-- A route of 127 bytes comes back. -/
theorem comesBack_127 : ∃ buf ms', msgEncodeRoute [] 1 .request (List.replicate 127 97) [123, 125] =
    (some buf, ms') ∧ ComesBack 1 .request (List.replicate 127 97) [123, 125] buf.base := by
  obtain ⟨buf, ms', henc⟩ : ∃ buf ms', msgEncodeRoute [] 1 .request (List.replicate 127 97)
      [123, 125] = (some buf, ms') := exists_msgEncodeRoute rfl (by decide +kernel)
  refine ⟨buf, ms', henc, (msgDecode_msgEncodeRoute_iff (by decide) rfl ?_ ?_ henc).mpr ?_⟩
  · rw [List.length_replicate]
    decide
  · rw [List.length_replicate]
    decide
  · rw [List.length_replicate]
    decide

/-- A route of 128 bytes does not: the decoder returns `NULL`. -/
theorem not_comesBack_128 : ∃ buf ms', msgEncodeRoute [] 1 .request (List.replicate 128 97)
    [123, 125] = (some buf, ms') ∧ msgDecode [] buf.base = .error .null ∧
      ¬ ComesBack 1 .request (List.replicate 128 97) [123, 125] buf.base := by
  have hrun : (msgEncodeRoute [] 1 .request (List.replicate 128 97) [123, 125]).1.map
      (fun buf => msgDecode [] buf.base) = some (.error .null) := by
    decide +kernel
  generalize msgEncodeRoute [] 1 .request (List.replicate 128 97) [123, 125] = r at hrun ⊢
  obtain ⟨o, ms'⟩ := r
  obtain ⟨buf, rfl, hdec⟩ := Option.map_eq_some_iff.mp hrun
  refine ⟨buf, ms', rfl, hdec, ?_⟩
  rintro ⟨raw, hback, -⟩
  rw [hdec] at hback
  cases hback

/-! ## Which messages share their bytes -/

/-- A header can be told from the bytes that start with it. -/
theorem msgHeader_inj {type type' : MsgType} {compressRoute : Bool} {id id' : ℕ}
    {rest rest' : Bytes} (hid : id < 2 ^ 32) (hid' : id' < 2 ^ 32)
    (h : msgHeader type compressRoute id ++ rest = msgHeader type' compressRoute id' ++ rest') :
    type = type' ∧ (type.hasId = true → id = id') ∧ rest = rest' := by
  obtain ⟨flag, hflag, htype, -⟩ := msgDecodeFlag type compressRoute
  obtain ⟨flag', hflag', htype', -⟩ := msgDecodeFlag type' compressRoute
  rw [msgHeader, msgHeader, hflag, hflag', List.append_assoc, List.append_assoc,
    List.singleton_append, List.singleton_append, List.cons.injEq] at h
  obtain ⟨rfl, h⟩ := h
  obtain rfl := Option.some.inj (htype.symm.trans htype')
  by_cases hhas : type.hasId = true
  · rw [if_pos hhas, if_pos hhas] at h
    have hread := msgDecodeId_msgEncodeId hid rest
    rw [h, msgDecodeId_msgEncodeId hid' rest'] at hread
    obtain ⟨rfl, rfl⟩ := Prod.mk.inj (Except.ok.inj hread)
    exact ⟨rfl, fun _ => rfl, rfl⟩
  · rw [if_neg hhas, if_neg hhas] at h
    exact ⟨rfl, fun hid => absurd hid hhas, h⟩

/-- So can a route whose length is one byte. -/
theorem msgEncodeRouteText_inj {route route' rest rest' : Bytes} (hle : route.length ≤ 255)
    (hle' : route'.length ≤ 255)
    (h : msgEncodeRouteText route route.length ++ rest =
      msgEncodeRouteText route' route'.length ++ rest') : route = route' ∧ rest = rest' := by
  simp only [msgEncodeRouteText, List.cons_append, List.take_length, List.cons.injEq] at h
  have hlength := congrArg UInt8.toNat h.1
  rw [UInt8.toNat_ofNat', UInt8.toNat_ofNat', Nat.and_two_pow_sub_one_eq_mod _ 8,
    Nat.and_two_pow_sub_one_eq_mod _ 8] at hlength
  exact List.append_inj h.2 (by omega)

/-- What the library's callers pass to `pc_msg_encode_route`. -/
structure RouteInput : Type where
  /-- `id` -/
  id : ℕ
  /-- it is a `uint32_t` -/
  id_lt : id < 2 ^ 32
  /-- `type` -/
  type : MsgType
  /-- a request or a notify -/
  sent : type = .request ∨ type = .notify
  /-- `route`, of any length -/
  route : Bytes
  /-- `msg` -/
  body : Bytes

namespace RouteInput

variable (x y : RouteInput) (ms ms' : List Bool)

/-- The bytes of the returned buffer; `none` is `buf.len = -1`. -/
def encode : Option Bytes := (msgEncodeRoute ms x.id x.type x.route x.body).1.map MsgBuf.base

/-- The one allocation of the call succeeds. -/
def Allocated : Prop := (mallocSize ms (msgRouteSize x.id x.type x.route x.body)).1 = true

/-- The same input; the id of a notify does not count. -/
def Same : Prop :=
  x.type = y.type ∧ (x.type.hasId = true → x.id = y.id) ∧ x.route = y.route ∧ x.body = y.body

/-- **Distinguished.** Two calls that succeed with the same bytes had the same input, and
a route that is too long for its length byte is an error. -/
structure Distinguished : Prop where
  /-- the encoding is injective -/
  injective : ∀ bytes, x.encode ms = some bytes → y.encode ms' = some bytes → x.Same y
  /-- an error for the first route -/
  left : 255 < x.route.length → x.encode ms = none
  /-- an error for the second route -/
  right : 255 < y.route.length → y.encode ms' = none

theorem hasRoute : x.type.hasRoute = true := by
  rcases x.sent with h | h <;> rw [h] <;> rfl

/-- The encoder fails only for lack of memory. -/
theorem encode_eq_none_iff : x.encode ms = none ↔ ¬ x.Allocated ms := by
  rw [encode, msgEncodeRoute_eq x.hasRoute, Allocated]
  split
  · next hok => simp [hok]
  · next hok => simp [hok]

theorem encode_eq_some {bytes : Bytes} (h : x.encode ms = some bytes) :
    x.Allocated ms ∧ bytes = msgHeader x.type false x.id ++
      (msgEncodeRouteText x.route (x.route.length % 2 ^ 16) ++ x.body) := by
  rw [encode, msgEncodeRoute_eq x.hasRoute] at h
  split at h
  · next hok => exact ⟨hok, (Option.some.inj h).symm⟩
  · cases h

end RouteInput

/-- **When two messages can be told apart.** For every two inputs, and whatever the
allocator does: the two are distinguished if and only if no route of more than 255 bytes
is given memory for. -/
theorem distinguished_iff (x y : RouteInput) (ms ms' : List Bool) :
    x.Distinguished y ms ms' ↔
      (x.Allocated ms → x.route.length ≤ 255) ∧ (y.Allocated ms' → y.route.length ≤ 255) := by
  constructor
  · intro h
    refine ⟨fun hok => ?_, fun hok => ?_⟩
    · by_contra hlong
      exact (x.encode_eq_none_iff ms).mp (h.left (Nat.not_le.mp hlong)) hok
    · by_contra hlong
      exact (y.encode_eq_none_iff ms').mp (h.right (Nat.not_le.mp hlong)) hok
  · rintro ⟨hx, hy⟩
    refine ⟨fun bytes hbytes hbytes' => ?_, fun hlong => ?_, fun hlong => ?_⟩
    · obtain ⟨hok, rfl⟩ := x.encode_eq_some ms hbytes
      obtain ⟨hok', heq⟩ := y.encode_eq_some ms' hbytes'
      have hle := hx hok
      have hle' := hy hok'
      rw [Nat.mod_eq_of_lt (show x.route.length < 2 ^ 16 by omega),
        Nat.mod_eq_of_lt (show y.route.length < 2 ^ 16 by omega)] at heq
      obtain ⟨htype, hid, heq⟩ := msgHeader_inj x.id_lt y.id_lt heq
      obtain ⟨hroute, hbody⟩ := msgEncodeRouteText_inj hle hle' heq
      exact ⟨htype, hid, hroute, hbody⟩
    · exact (x.encode_eq_none_iff ms).mpr fun hok => absurd (hx hok) (Nat.not_le.mpr hlong)
    · exact (y.encode_eq_none_iff ms').mpr fun hok => absurd (hy hok) (Nat.not_le.mpr hlong)

/-- A notify for the route `a` with 256 bytes of body. -/
def shortRoute : RouteInput := ⟨0, by decide, .notify, .inr rfl, [97], List.replicate 256 97⟩

/-- A notify for a route of 257 bytes without a body. -/
def longRoute : RouteInput := ⟨0, by decide, .notify, .inr rfl, List.replicate 257 97, []⟩

/-- The two have the same bytes. -/
theorem not_distinguished_long :
    (∃ bytes, shortRoute.encode [] = some bytes ∧ longRoute.encode [] = some bytes) ∧
      ¬ shortRoute.Distinguished longRoute [] [] := by
  have hsame : (shortRoute.encode []).isSome ∧ shortRoute.encode [] = longRoute.encode [] := by
    decide +kernel
  obtain ⟨bytes, hbytes⟩ := Option.isSome_iff_exists.mp hsame.1
  have hbytes' := hsame.2.symm.trans hbytes
  refine ⟨⟨bytes, hbytes, hbytes'⟩, fun h => ?_⟩
  obtain ⟨-, -, hroute, -⟩ := h.injective bytes hbytes hbytes'
  have hlength := congrArg List.length hroute
  rw [shortRoute, longRoute, List.length_replicate] at hlength
  exact absurd hlength (by decide)

end Libpomelo
