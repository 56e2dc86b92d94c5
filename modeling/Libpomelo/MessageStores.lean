import Libpomelo.MessageRoundtrip

/-!
# Every byte of a message, once

`pc_msg_encode_route` computes a size, allocates it, and then stores at a running offset. The
size comes from a loop that shifts and from a length cut to sixteen bits, the offset from a loop
that divides and from what the writers return. Here every store is kept with its offset
(`MsgWriter`), so that the two computations can be compared: the offsets of the stores are
`0, 1, ..., msg_len - 1`, each of them once (`msgEncodeRoute_fills`).
-/

namespace Libpomelo

/-- A buffer that is written: the stores so far, oldest first, each byte with its offset, and
the running `offset`. -/
structure MsgWriter : Type where
  /-- the stores -/
  stores : List (UInt8 × ℕ)
  /-- `offset` -/
  offset : ℕ

/-- `base[offset++] = b`. -/
def MsgWriter.put (b : UInt8) (w : MsgWriter) : MsgWriter :=
  ⟨w.stores ++ [(b, w.offset)], w.offset + 1⟩

/-- `memcpy(base + offset, src, |src|)`, and the offset behind it. -/
def MsgWriter.copy (src : Bytes) (w : MsgWriter) : MsgWriter :=
  ⟨w.stores ++ src.zipIdx w.offset, w.offset + src.length⟩

/-- `pc__msg_encode_flag`. -/
def msgPutFlag (type : MsgType) (compressRoute : Bool) : MsgWriter → MsgWriter :=
  .put (UInt8.ofNat (type.code <<< 1 ||| compressRoute.toNat))

/-- The loop of `pc__msg_encode_id`; a `uint32_t` takes at most five turns. -/
def msgPutIdLoop : ℕ → ℕ → MsgWriter → MsgWriter
  | 0, _, w => w
  | n + 1, id, w =>
    let tmp := id % 128
    let next := id / 128
    let w := w.put (UInt8.ofNat (if next ≠ 0 then tmp + 128 else tmp))
    if next ≠ 0 then msgPutIdLoop n next w else w

/-- `pc__msg_encode_id`. -/
def msgPutId (id : ℕ) : MsgWriter → MsgWriter := msgPutIdLoop 5 id

/-- `pc__msg_encode_route`. -/
def msgPutRoute (route : Bytes) (routeLen : ℕ) (w : MsgWriter) : MsgWriter :=
  (w.put (UInt8.ofNat (routeLen &&& 0xff))).copy (route.take routeLen)

/-- `pc_msg_encode_route`, store by store: the size of the allocation and the stores. `none` is a
failed allocation. -/
def msgRouteStores (ms : List Bool) (id : ℕ) (type : MsgType) (route msg : Bytes) :
    Option (ℕ × List (UInt8 × ℕ)) :=
  let idLen := if type.hasId then msgIdLength id else 0
  let routeLen := if type.hasRoute then route.length % 2 ^ 16 else 0
  let msgLen := 1 + idLen + 1 + routeLen + msg.length
  if (mallocSize ms msgLen).1 then
    let w := msgPutFlag type false ⟨[], 0⟩
    let w := if type.hasId then msgPutId id w else w
    let w := if type.hasRoute then msgPutRoute route routeLen w else w
    some (msgLen, (w.copy msg).stores)
  else none

/-! ## One writer after another -/

namespace MsgWriter

variable (w : MsgWriter)

theorem put_eq_copy (b : UInt8) : w.put b = w.copy [b] := rfl

@[simp] theorem copy_nil : w.copy [] = w := by
  simp [copy]

theorem copy_append (u v : Bytes) : w.copy (u ++ v) = (w.copy u).copy v := by
  rw [copy, copy, copy, List.zipIdx_append, List.length_append, List.append_assoc, Nat.add_assoc]

end MsgWriter

/-- The id loop stores what it emits. -/
theorem msgPutIdLoop_eq (n : ℕ) : ∀ id w, msgPutIdLoop n id w = w.copy (msgEncodeIdLoop n id) := by
  induction n with
  | zero =>
    intro id w
    rw [msgPutIdLoop, msgEncodeIdLoop, MsgWriter.copy_nil]
  | succ n ih =>
    intro id w
    rw [msgPutIdLoop, msgEncodeIdLoop]
    by_cases hmore : id / 128 = 0
    · -- the last group
      rw [if_neg (not_not.mpr hmore)]
      simp only [hmore, ne_eq, not_true, if_false]
      rfl
    · rw [if_pos hmore]
      simp only [hmore, ne_eq, not_false_eq_true, if_true]
      rw [ih, MsgWriter.put_eq_copy, ← MsgWriter.copy_append]
      rfl

theorem msgPutRoute_eq (route : Bytes) (routeLen : ℕ) (w : MsgWriter) :
    msgPutRoute route routeLen w = w.copy (msgEncodeRouteText route routeLen) := by
  rw [msgPutRoute, MsgWriter.put_eq_copy, ← MsgWriter.copy_append]
  rfl

/-- **Store by store** the encoder writes the bytes of `msgEncodeRoute`, from offset 0 on. -/
theorem msgRouteStores_eq (ms : List Bool) (id : ℕ) (type : MsgType) (route msg : Bytes) :
    msgRouteStores ms id type route msg =
      (msgEncodeRoute ms id type route msg).1.map fun buf => (buf.len, buf.base.zipIdx) := by
  have hflag : ∀ w, msgPutFlag type false w = w.copy (msgEncodeFlag type false) := fun _ => rfl
  have hid : ∀ w, (if type.hasId then msgPutId id w else w) =
      w.copy (if type.hasId then msgEncodeId id else []) := by
    intro w
    split
    · exact msgPutIdLoop_eq 5 id w
    · rw [MsgWriter.copy_nil]
  have hroute : ∀ n w, (if type.hasRoute then msgPutRoute route n w else w) =
      w.copy (if type.hasRoute then msgEncodeRouteText route n else []) := by
    intro n w
    split
    · exact msgPutRoute_eq route n w
    · rw [MsgWriter.copy_nil]
  rw [msgRouteStores, msgEncodeRoute]
  dsimp only
  rw [hflag, hid, hroute, ← MsgWriter.copy_append, ← MsgWriter.copy_append,
    ← MsgWriter.copy_append, List.append_assoc, List.append_assoc]
  generalize mallocSize ms _ = r
  obtain ⟨_ | _, ms'⟩ := r <;> rfl

/-! ## The length of an id -/

/-- Both loops over an id have ended after as many turns as it has groups. -/
theorem msgIdLoops_end {k : ℕ} (hk : 0 < k) : ∀ {id turns : ℕ}, id < 128 ^ k → k ≤ turns →
    msgEncodeIdLoop turns id = msgEncodeIdLoop k id := by
  induction k with
  | zero => exact absurd hk (lt_irrefl 0)
  | succ k ih =>
    intro id turns hid hturns
    obtain ⟨n, rfl⟩ := Nat.exists_eq_add_of_le' (Nat.one_le_of_lt hturns)
    rw [msgEncodeIdLoop, msgEncodeIdLoop]
    by_cases hmore : id / 128 = 0
    · rw [if_neg (not_not.mpr hmore), if_neg (not_not.mpr hmore)]
    · have hrest : id / 128 < 128 ^ k := by
        rw [Nat.div_lt_iff_lt_mul (by decide)]
        rwa [pow_succ] at hid
      have hpos : 0 < k := by
        by_contra hzero
        rw [Nat.eq_zero_of_not_pos hzero, pow_zero] at hrest
        exact hmore (Nat.lt_one_iff.mp hrest)
      rw [if_pos hmore, if_pos hmore, ih hpos hrest (Nat.le_of_succ_le_succ hturns)]

/-- **`pc__msg_id_length`** is the number of bytes that `pc__msg_encode_id` emits, whatever the
number of turns its loop is given from five on. -/
theorem length_msgEncodeIdLoop_eq {id turns : ℕ} (hid : id < 2 ^ 32) (hturns : 5 ≤ turns) :
    (msgEncodeIdLoop turns id).length = msgIdLength id ∧
      msgIdLengthLoop turns id = msgIdLength id := by
  have hend : msgEncodeIdLoop turns id = msgEncodeIdLoop 5 id :=
    msgIdLoops_end (by decide) (hid.trans (by decide)) hturns
  have hlen : (msgEncodeIdLoop turns id).length = msgIdLength id := by
    rw [hend, length_msgEncodeIdLoop, msgIdLength]
  exact ⟨hlen, (length_msgEncodeIdLoop turns id).symm.trans hlen⟩

/-! ## The message -/

/-- What is stored is as long as what was allocated. -/
theorem length_msgEncodeRoute {type : MsgType} (hroute : type.hasRoute = true) {ms : List Bool}
    {id : ℕ} {route body : Bytes} {buf : MsgBuf}
    (h : (msgEncodeRoute ms id type route body).1 = some buf) : buf.base.length = buf.len := by
  rw [msgEncodeRoute_eq hroute] at h
  split at h
  · obtain rfl := Option.some.inj h
    have hcut : min (route.length % 2 ^ 16) route.length = route.length % 2 ^ 16 :=
      Nat.min_eq_left (Nat.mod_le _ _)
    simp only [msgRouteSize, hroute, if_true, List.length_append, length_msgHeader,
      msgEncodeRouteText, List.length_cons, List.length_take, hcut]
    omega
  · exact absurd h (by simp)

/-- **Every byte once.** For every `uint32_t` id, a `REQUEST` or `NOTIFY`, every route and body and
every outcome of the allocation: the stores of `pc_msg_encode_route` go to the offsets
`0, ..., msg_len - 1` in this order, they are the bytes of the result, and the part of the size
that stands for the id is the number of bytes emitted for it. -/
theorem msgEncodeRoute_fills {id : ℕ} (hid : id < 2 ^ 32) {type : MsgType}
    (htype : type = .request ∨ type = .notify) {ms : List Bool} {route body : Bytes} {msgLen : ℕ}
    {stores : List (UInt8 × ℕ)} (h : msgRouteStores ms id type route body = some (msgLen, stores)) :
    stores.map Prod.snd = List.range msgLen ∧
      (msgEncodeRoute ms id type route body).1 = some ⟨msgLen, stores.map Prod.fst⟩ ∧
      ∀ turns, 5 ≤ turns → (msgEncodeIdLoop turns id).length = msgIdLength id ∧
        msgIdLengthLoop turns id = msgIdLength id := by
  have hroute : type.hasRoute = true := by
    rcases htype with rfl | rfl <;> rfl
  rw [msgRouteStores_eq] at h
  obtain ⟨buf, hbuf, heq⟩ := Option.map_eq_some_iff.mp h
  obtain ⟨rfl, rfl⟩ := Prod.mk.inj heq
  have hlen := length_msgEncodeRoute hroute hbuf
  refine ⟨?_, ?_, fun turns => length_msgEncodeIdLoop_eq hid⟩
  · rw [List.zipIdx_map_snd, hlen, List.range_eq_range']
  · rw [List.zipIdx_map_fst]
    exact hbuf

/-- The request 300 with the route `ab` and an empty body. -/
theorem msgEncodeRoute_fills_300 :
    ∃ stores, msgRouteStores [] 300 .request [97, 98] [] = some (6, stores) ∧
      stores.map Prod.snd = List.range 6 ∧
      (msgEncodeRoute [] 300 .request [97, 98] []).1 = some ⟨6, stores.map Prod.fst⟩ := by
  have h : msgRouteStores [] 300 .request [97, 98] [] =
    some (6, [(0, 0), (172, 1), (2, 2), (2, 3), (97, 4), (98, 5)]) := by decide
  have hfills := msgEncodeRoute_fills (by decide) (.inl rfl) h
  exact ⟨_, h, hfills.1, hfills.2.1⟩

end Libpomelo
