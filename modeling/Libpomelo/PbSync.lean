import Libpomelo.PbBounds
import Libpomelo.PbReading

/-!
# Reading in step

A stream keeps its place twice: a read pointer and a count of bytes it may still read. As long
as both move together (`Takes`), what the decoder reads is what the grammar of the wire format
says, piece by piece. They part at one place. A submessage gives the pointer of its own stream
back but not the count of bytes it left, so a body that a zero tag ends early leaves the
pointer in front of bytes that the count has already passed.

Each reader therefore has one statement with two ends (`Outcome`): it took bytes of its kind in
step, or it met a message that ends early and lost step for good, since the end of the stream
never moves up again (`IStream.Within.fence`).
-/

namespace Libpomelo

/-! ## Streams and the bytes ahead -/

/-- The stream ends inside the buffer. -/
def IStream.Inside (buf : Bytes) (s : IStream) : Prop := s.pos + s.bytesLeft ≤ buf.length

instance (buf : Bytes) (s : IStream) : Decidable (s.Inside buf) :=
  inferInstanceAs (Decidable (_ ≤ _))

/-- The bytes that may still be read. -/
def IStream.ahead (buf : Bytes) (s : IStream) : Bytes := (buf.drop s.pos).take s.bytesLeft

/-- The end of the region, as the pointer and the count give it. -/
def IStream.limit (s : IStream) : ℕ := s.pos + s.bytesLeft

/-- **In step**: from `s` to `s'` the pointer and the count both moved over `w`. -/
structure Takes (buf : Bytes) (s s' : IStream) (w : Bytes) : Prop where
  /-- `w` lay ahead -/
  bytes : s.ahead buf = w ++ s'.ahead buf
  /-- the pointer is behind it -/
  pos : s'.pos = s.pos + w.length
  /-- and so is the count -/
  left : s.bytesLeft = w.length + s'.bytesLeft

section Takes

variable {buf : Bytes} {s s₁ s' : IStream} {v w : Bytes}

theorem IStream.ahead_length (hs : s.Inside buf) : (s.ahead buf).length = s.bytesLeft := by
  have hin : s.pos + s.bytesLeft ≤ buf.length := hs
  rw [IStream.ahead, List.length_take, List.length_drop]
  omega

theorem Takes.refl (buf : Bytes) (s : IStream) : Takes buf s s [] := ⟨rfl, rfl, by simp⟩

theorem Takes.trans (h : Takes buf s s₁ v) (h' : Takes buf s₁ s' w) :
    Takes buf s s' (v ++ w) where
  bytes := by rw [h.bytes, h'.bytes, List.append_assoc]
  pos := by rw [h'.pos, h.pos, List.length_append, Nat.add_assoc]
  left := by rw [h.left, h'.left, List.length_append, Nat.add_assoc]

/-- The end stays. -/
theorem Takes.limit_eq (h : Takes buf s s' w) : s'.limit = s.limit := by
  rw [IStream.limit, IStream.limit, h.pos, h.left, Nat.add_assoc]

theorem Takes.inside (h : Takes buf s s' w) (hs : s.Inside buf) : s'.Inside buf :=
  h.limit_eq.trans_le hs

/-- The next `k` bytes, wherever the stream that is behind them counts its reads. -/
theorem takes_count {k : ℕ} (hs : s.Inside buf) (hk : k ≤ s.bytesLeft) (r : ℕ) :
    Takes buf s ⟨s.pos + k, s.bytesLeft - k, r⟩
      (IStream.ahead buf { s with bytesLeft := k }) := by
  have hin : s.pos + s.bytesLeft ≤ buf.length := hs
  have hlen : (IStream.ahead buf { s with bytesLeft := k }).length = k :=
    IStream.ahead_length ((Nat.add_le_add_left hk _).trans hin)
  refine ⟨?_, by rw [hlen], by rw [hlen]; dsimp only; omega⟩
  have hsum : k + (s.bytesLeft - k) = s.bytesLeft := by omega
  show (buf.drop s.pos).take s.bytesLeft =
    (buf.drop s.pos).take k ++ (buf.drop (s.pos + k)).take (s.bytesLeft - k)
  rw [← List.drop_drop, ← List.take_add, hsum]

theorem pbRead_takes {count : ℕ} {bytes : Bytes} (hs : s.Inside buf)
    (h : pbRead buf s count = (some bytes, s')) :
    Takes buf s s' bytes ∧ bytes.length = count := by
  rw [pbRead] at h
  split at h
  · cases h
  · next hroom =>
    obtain ⟨hbytes, rfl⟩ := Prod.mk.inj h
    obtain rfl := Option.some.inj hbytes
    have hin : s.pos + s.bytesLeft ≤ buf.length := hs
    exact ⟨takes_count hs (Nat.not_lt.mp hroom) _, by
      rw [List.length_take, List.length_drop]
      omega⟩

/-- The top bit says whether a byte is continued. -/
theorem and_128_eq_zero (b : UInt8) : b.toNat &&& 0x80 = 0 ↔ b.toNat < 128 := by
  have hlt : b.toNat < 256 := b.toNat_lt
  constructor
  · intro hand
    by_contra hge
    obtain ⟨m, hm⟩ := Nat.exists_eq_add_of_le' (Nat.not_lt.mp hge)
    rw [hm, (and_128_of_lt (by omega)).1] at hand
    cases hand
  · exact fun hsmall => (and_128_of_lt hsmall).2

theorem continued_cons {b : UInt8} {bs : Bytes} (hb : ¬ b.toNat < 128) (h : Continued bs) :
    Continued (b :: bs) :=
  List.forall_mem_cons.mpr ⟨Nat.not_lt.mp hb, h⟩

/-- One turn of the loop of `pb_decode_varint` that finds a byte. -/
theorem varintRead_succ {n bitpos dest : ℕ} {r : Option ℕ × IStream} (hs : s.Inside buf)
    (h : varintRead buf (n + 1) bitpos dest s = r) :
    (r = (none, s) ∧ s.bytesLeft = 0) ∨ ∃ b s₁, Takes buf s s₁ [b] ∧
      (if b.toNat < 128 then (some (varintSum bitpos dest [b]), s₁)
        else varintRead buf n (bitpos + 7) (varintSum bitpos dest [b]) s₁) = r := by
  rw [varintRead] at h
  rcases hread : pbRead buf s 1 with ⟨_ | bytes, s₁⟩
  · rw [hread] at h
    rw [pbRead] at hread
    split at hread
    · next hroom =>
      obtain ⟨-, rfl⟩ := Prod.mk.inj hread
      exact .inl ⟨h.symm, by omega⟩
    · cases hread
  · obtain ⟨htakes, hlen⟩ := pbRead_takes hs hread
    obtain ⟨b, rfl⟩ := List.length_eq_one_iff.mp hlen
    rw [hread] at h
    refine .inr ⟨b, s₁, htakes, ?_⟩
    rw [← h]
    simp only [and_128_eq_zero, List.headD_cons, varintSum]

/-- A varint that is read. -/
theorem varintRead_takes {n m : ℕ} {bitpos dest : ℕ} (hs : s.Inside buf)
    (h : varintRead buf n bitpos dest s = (some m, s')) :
    ∃ front last, Takes buf s s' (front ++ [last]) ∧ (front ++ [last]).length ≤ n ∧
      Continued front ∧ last.toNat < 128 ∧ m = varintSum bitpos dest (front ++ [last]) := by
  induction n generalizing bitpos dest s with
  | zero => cases h
  | succ n ih =>
    obtain ⟨heq, -⟩ | ⟨b, s₁, htakes, heq⟩ := varintRead_succ hs h
    · cases heq
    · split at heq
      · next hlast =>
        obtain ⟨hm, rfl⟩ := Prod.mk.inj heq
        exact ⟨[], b, htakes, by simp, by simp [Continued], hlast, (Option.some.inj hm).symm⟩
      · next hmore =>
        obtain ⟨front, last, hrest, hlen, hfront, hlast, hm⟩ := ih (htakes.inside hs) heq
        exact ⟨b :: front, last, htakes.trans hrest, by simpa using hlen,
          continued_cons hmore hfront, hlast, hm⟩

/-- A varint that is cut by the end of the stream. -/
theorem varintRead_cut {n : ℕ} {bitpos dest : ℕ} (hs : s.Inside buf)
    (h : varintRead buf n bitpos dest s = (none, s')) :
    ∃ c, Takes buf s s' c ∧ c.length ≤ n ∧ Continued c := by
  induction n generalizing bitpos dest s with
  | zero =>
    obtain ⟨-, rfl⟩ := Prod.mk.inj h
    exact ⟨[], .refl buf s, le_rfl, by simp [Continued]⟩
  | succ n ih =>
    obtain ⟨heq, -⟩ | ⟨b, s₁, htakes, heq⟩ := varintRead_succ hs h
    · obtain ⟨-, rfl⟩ := Prod.mk.inj heq
      exact ⟨[], .refl buf s', Nat.zero_le _, by simp [Continued]⟩
    · split at heq
      · cases heq
      · next hmore =>
        obtain ⟨c, hrest, hlen, hc⟩ := ih (htakes.inside hs) heq
        exact ⟨b :: c, htakes.trans hrest, by simpa using hlen, continued_cons hmore hc⟩

/-- `pb_decode_varint` takes a varint. -/
theorem pbDecodeVarint_takes {m : ℕ} (hs : s.Inside buf)
    (h : pbDecodeVarint buf s = (some m, s')) :
    ∃ v, Takes buf s s' v ∧ IsVarint v ∧ m = varintSum 0 0 v := by
  obtain ⟨front, last, htakes, hlen, hfront, hlast, hm⟩ := varintRead_takes hs h
  exact ⟨_, htakes, ⟨front, last, rfl, hlen, hfront, hlast⟩, hm⟩

theorem pbDecodeVarint32_takes {m : ℕ} (hs : s.Inside buf)
    (h : pbDecodeVarint32 buf s = (some m, s')) :
    ∃ v, Takes buf s s' v ∧ IsVarint v ∧ m = varintValue v := by
  obtain ⟨hsome, hstream⟩ := Prod.mk.inj h
  obtain ⟨m', hm', rfl⟩ := Option.map_eq_some_iff.mp hsome
  obtain ⟨v, htakes, hv, rfl⟩ := pbDecodeVarint_takes hs (Prod.ext hm' hstream)
  exact ⟨v, htakes, hv, rfl⟩

/-- A tag that is read. -/
theorem pbDecodeTag_takes {n : ℕ} (hs : s.Inside buf) (h : pbDecodeTag buf s = (.tag n, s')) :
    ∃ tag, Takes buf s s' tag ∧ IsTag varintValue tag n := by
  rw [pbDecodeTag] at h
  rcases hread : pbDecodeVarint32 buf s with ⟨_ | temp, s₁⟩
  · rw [hread] at h
    dsimp only at h
    split at h <;> cases h
  · rw [hread] at h
    obtain ⟨htag, rfl⟩ := Prod.mk.inj h
    split at htag
    · cases htag
    · next hne =>
      obtain ⟨v, htakes, hv, rfl⟩ := pbDecodeVarint32_takes hs hread
      obtain rfl := TagResult.tag.inj htag
      exact ⟨v, htakes, hv, hne, Nat.mod_lt _ (by decide), rfl⟩

/-- The two ends of a message before its last byte: a zero tag, and a tag that is cut. -/
theorem pbDecodeTag_eof (hs : s.Inside buf) (hleft : s.bytesLeft ≠ 0)
    (h : pbDecodeTag buf s = (.eof, s')) :
    ∃ e, Takes buf s s' e ∧ (IsZero varintValue e ∨ IsCut e ∧ s'.bytesLeft = 0) := by
  rw [pbDecodeTag] at h
  rcases hread : pbDecodeVarint32 buf s with ⟨_ | temp, s₁⟩
  · -- the varint failed: that is the end of the message only if the bytes ran out
    rw [hread] at h
    obtain ⟨htag, rfl⟩ := Prod.mk.inj h
    split at htag
    · next hend =>
      obtain ⟨hnone, hstream⟩ := Prod.mk.inj hread
      obtain ⟨c, htakes, hlen, hc⟩ :=
        varintRead_cut hs (Prod.ext (Option.map_eq_none_iff.mp hnone) hstream)
      refine ⟨c, htakes, .inr ⟨⟨?_, hlen, hc⟩, hend⟩⟩
      rintro rfl
      have hleft' := htakes.left
      simp only [List.length_nil] at hleft'
      omega
    · cases htag
  · rw [hread] at h
    obtain ⟨htag, rfl⟩ := Prod.mk.inj h
    split at htag
    · next hzero =>
      obtain ⟨v, htakes, hv, rfl⟩ := pbDecodeVarint32_takes hs hread
      exact ⟨v, htakes, .inl ⟨hv, hzero⟩⟩
    · cases htag

/-! ## Values -/

/-- A string that is read. -/
theorem pbDecodeStringValue_takes {text : Bytes} (hs : s.Inside buf)
    (h : pbDecodeStringValue buf s = .ok (text, s')) :
    ∃ bs, Takes buf s s' bs ∧ IsPrefixed varintValue bs text := by
  rw [pbDecodeStringValue] at h
  rcases hlen : pbDecodeVarint32 buf s with ⟨_ | len, s₁⟩
  · rw [hlen] at h
    cases h
  · rw [hlen] at h
    obtain ⟨v, htakes, hv, rfl⟩ := pbDecodeVarint32_takes hs hlen
    dsimp only at h
    split at h
    · cases h
    · rcases hread : pbRead buf s₁ (varintValue v) with ⟨_ | bytes, s₂⟩
      · rw [hread] at h
        cases h
      · rw [hread] at h
        obtain ⟨rfl, rfl⟩ := Prod.mk.inj (Except.ok.inj h)
        obtain ⟨hbytes, hcount⟩ := pbRead_takes (htakes.inside hs) hread
        exact ⟨v ++ bytes, htakes.trans hbytes, v, hv, hcount.symm, rfl⟩

/-- A primitive value that is read. -/
theorem readScalar_takes {t : PbType} {w : Wire} (hs : s.Inside buf)
    (h : readScalar buf s t = some (w, s')) :
    ∃ bs, Takes buf s s' bs ∧ IsScalar varintValue t bs := by
  have hvarint : ∀ {m}, pbDecodeVarint buf s = (some m, s') →
      ∃ bs, Takes buf s s' bs ∧ IsVarint bs := by
    intro m hread
    obtain ⟨v, htakes, hv, -⟩ := pbDecodeVarint_takes hs hread
    exact ⟨v, htakes, hv⟩
  have hfixed : ∀ {k bytes}, pbRead buf s k = (some bytes, s') →
      ∃ bs, Takes buf s s' bs ∧ bs.length = k := fun hread => ⟨_, pbRead_takes hs hread⟩
  cases t with
  | uInt32 =>
    obtain ⟨m, hm, heq⟩ := Option.map_eq_some_iff.mp h
    exact hvarint (Prod.ext hm (Prod.mk.inj heq).2)
  | int32 =>
    obtain ⟨i, hi, heq⟩ := Option.map_eq_some_iff.mp h
    obtain ⟨m, hm, -⟩ := Option.map_eq_some_iff.mp hi
    exact hvarint (Prod.ext hm (Prod.mk.inj heq).2)
  | sInt32 =>
    obtain ⟨i, hi, heq⟩ := Option.map_eq_some_iff.mp h
    obtain ⟨m, hm, -⟩ := Option.map_eq_some_iff.mp hi
    exact hvarint (Prod.ext hm (Prod.mk.inj heq).2)
  | float =>
    obtain ⟨x, hx, heq⟩ := Option.map_eq_some_iff.mp h
    obtain ⟨bytes, hbytes, -⟩ := Option.map_eq_some_iff.mp hx
    exact hfixed (Prod.ext hbytes (Prod.mk.inj heq).2)
  | double =>
    obtain ⟨x, hx, heq⟩ := Option.map_eq_some_iff.mp h
    obtain ⟨bytes, hbytes, -⟩ := Option.map_eq_some_iff.mp hx
    exact hfixed (Prod.ext hbytes (Prod.mk.inj heq).2)
  | string =>
    rw [readScalar] at h
    rcases htext : pbDecodeStringValue buf s with ⟨stop, s₁⟩ | ⟨text, s₁⟩
    · rw [htext] at h
      cases h
    · rw [htext] at h
      obtain ⟨-, rfl⟩ := Prod.mk.inj (Option.some.inj h)
      obtain ⟨bs, htakes, hprefixed⟩ := pbDecodeStringValue_takes hs htext
      exact ⟨bs, htakes, text, hprefixed⟩

end Takes

/-! ## Losing step -/

/-- **Out of step**: a `Q` lay ahead, and behind it the end of the stream has moved. -/
structure Slips (buf : Bytes) (Q : Bytes → Prop) (s s' : IStream) : Prop where
  /-- what lay ahead -/
  ahead : ∃ w rest, Q w ∧ s.ahead buf = w ++ rest
  /-- the pointer and the count no longer add up to the end -/
  limit_lt : s'.limit < s.limit
  /-- the pointer did not move back -/
  pos_le : s.pos ≤ s'.pos

/-- A reader took a `P` in step, or lost step at a `Q`. -/
def Outcome (buf : Bytes) (P Q : Bytes → Prop) (s s' : IStream) : Prop :=
  (∃ w, P w ∧ Takes buf s s' w) ∨ Slips buf Q s s'

section Outcome

variable {buf : Bytes} {P Q P' Q' : Bytes → Prop} {s s₁ s' : IStream}

theorem Outcome.mono (h : Outcome buf P Q s s') (hP : ∀ w, P w → P' w) (hQ : ∀ w, Q w → Q' w) :
    Outcome buf P' Q' s s' := by
  obtain ⟨w, hw, htakes⟩ | ⟨⟨w, rest, hw, hahead⟩, hlimit, hpos⟩ := h
  · exact .inl ⟨w, hP w hw, htakes⟩
  · exact .inr ⟨⟨w, rest, hQ w hw, hahead⟩, hlimit, hpos⟩

theorem Outcome.limit_le (h : Outcome buf P Q s s') : s'.limit ≤ s.limit := by
  obtain ⟨w, -, htakes⟩ | hslips := h
  · exact htakes.limit_eq.le
  · exact hslips.limit_lt.le

theorem Outcome.pos_le (h : Outcome buf P Q s s') : s.pos ≤ s'.pos := by
  obtain ⟨w, -, htakes⟩ | hslips := h
  · exact htakes.pos.ge.trans' (Nat.le_add_right _ _)
  · exact hslips.pos_le

/-- A reader behind bytes that were taken. -/
theorem Outcome.behind {v : Bytes} (htakes : Takes buf s s₁ v) (h : Outcome buf P Q s₁ s')
    (hP : ∀ w, P w → P' (v ++ w)) (hQ : ∀ w, Q w → Q' (v ++ w)) : Outcome buf P' Q' s s' := by
  obtain ⟨w, hw, htakes'⟩ | ⟨⟨w, rest, hw, hahead⟩, hlimit, hpos⟩ := h
  · exact .inl ⟨v ++ w, hP w hw, htakes.trans htakes'⟩
  · refine .inr ⟨⟨v ++ w, rest, hQ w hw, ?_⟩, htakes.limit_eq ▸ hlimit, ?_⟩
    · rw [htakes.bytes, hahead, List.append_assoc]
    · exact (htakes.pos.ge.trans' (Nat.le_add_right _ _)).trans hpos

end Outcome

/-! ## Messages -/

section Messages

variable {buf : Bytes} {gprotos proto protos : Json} {turns : ℕ} {s s' : IStream} {v : Reading}
  {read : Json → IStream → Option (List Item × IStream)}

/-- **How the loop of `pb_decode` ends** over the bytes ahead of `s`. In step it took
occurrences, and behind them a zero tag or all the rest. -/
def Decoded (buf : Bytes) (gprotos protos : Json) (s s' : IStream) : Prop :=
  (∃ fs rest, IsOccurrences varintValue (IsWhole varintValue gprotos) gprotos protos fs ∧
      Takes buf s s' (fs ++ rest) ∧
      (IsZero varintValue rest ∨ WholeEnd varintValue rest ∧ s'.bytesLeft = 0)) ∨
    (OutOfStep varintValue gprotos protos (s.ahead buf) ∧ s'.limit < s.limit ∧ s.pos ≤ s'.pos)

/-- What `read` is to be in the functions it is passed to. -/
def ReadsInStep (buf : Bytes) (gprotos : Json)
    (read : Json → IStream → Option (List Item × IStream)) : Prop :=
  ∀ level s items s', s.Inside buf → read level s = some (items, s') →
    Decoded buf gprotos level s s'

theorem IStream.ahead_of_left (hleft : s.bytesLeft = 0) : s.ahead buf = [] := by
  rw [IStream.ahead, hleft, List.take_zero]

/-- A body that is read to its last byte is whole; else it ends early, and the pointer stays
in front of its end. -/
theorem Decoded.body {sub : IStream} (hs : s.Inside buf) (h : Decoded buf gprotos protos s sub) :
    (IsWhole varintValue gprotos protos (s.ahead buf) ∧ sub.pos = s.limit) ∨
      (EndsEarly varintValue gprotos protos (s.ahead buf) ∧ sub.pos < s.limit) := by
  obtain ⟨fs, rest, hfs, htakes, hend⟩ | ⟨hout, hlimit, -⟩ := h
  · have hlimit := htakes.limit_eq
    rw [IStream.limit] at hlimit
    rw [htakes.bytes, List.append_assoc]
    obtain hleft | hleft := Nat.eq_zero_or_pos sub.bytesLeft
    · have hwhole : WholeEnd varintValue rest :=
        hend.elim (fun hzero => .inr (.inl hzero)) fun hw => hw.1
      rw [IStream.ahead_of_left hleft, List.append_nil]
      exact .inl ⟨isBody_iff.mpr ⟨fs, rest, rfl, hfs, hwhole⟩, by omega⟩
    · obtain hzero | ⟨-, hnone⟩ := hend
      · have hlen := IStream.ahead_length (htakes.inside hs)
        obtain ⟨b, junk, hahead⟩ := List.exists_cons_of_length_pos (hlen ▸ hleft)
        rw [hahead]
        exact .inr ⟨.here hfs ⟨rest, b, junk, hzero, rfl⟩, by omega⟩
      · omega
  · exact .inr ⟨hout.endsEarly, Nat.lt_of_le_of_lt (Nat.le_add_right _ _) hlimit⟩

/-- **A nested message**: its length and its body lie ahead, and the count passes both. The
pointer passes them too exactly if the body is whole. -/
theorem readMessage_takes {level : Json} (hread : ReadsInStep buf gprotos read)
    (hs : s.Inside buf) (h : readMessage buf read turns level s = some (v, s')) :
    ∃ len body rest, IsVarint len ∧ varintValue len = body.length ∧
      s.ahead buf = len ++ body ++ rest ∧ s.bytesLeft = (len ++ body).length + s'.bytesLeft ∧
      ((IsWhole varintValue gprotos level body ∧ Takes buf s s' (len ++ body)) ∨
        (EndsEarly varintValue gprotos level body ∧ s.pos ≤ s'.pos ∧
          s'.pos < s.pos + (len ++ body).length)) := by
  obtain ⟨size, s₁, items, sub, hlen, hsize, hsub, -, rfl⟩ := readMessage_cases h
  obtain ⟨len, htakes, hvarint, rfl⟩ := pbDecodeVarint32_takes hs hlen
  have hin : s₁.Inside buf := htakes.inside hs
  have hin' : IStream.Inside buf { s₁ with bytesLeft := varintValue len } :=
    (Nat.add_le_add_left hsize _).trans hin
  -- the stream of the caller counts the body as read, whatever `pb_decode` left of it
  have hbody := takes_count hin hsize sub.reach
  have hcount := IStream.ahead_length hin'
  have hdecoded := hread _ _ _ _ hin' hsub
  set body := IStream.ahead buf { s₁ with bytesLeft := varintValue len }
  have hboth := htakes.trans hbody
  refine ⟨len, body, _, hvarint, hcount.symm, hboth.bytes, hboth.left, ?_⟩
  have hpos := htakes.pos
  obtain ⟨hwhole, hend⟩ | ⟨hearly, hend⟩ := hdecoded.body hin'
  · rw [show sub.pos = s₁.pos + varintValue len from hend]
    exact .inl ⟨hwhole, hboth⟩
  · have hmoved : s₁.pos ≤ sub.pos := by
      obtain ⟨_, _, -, htakes', -⟩ | ⟨-, -, hle⟩ := hdecoded
      · exact htakes'.pos.ge.trans' (Nat.le_add_right _ _)
      · exact hle
    refine .inr ⟨hearly, ?_, ?_⟩
    · show s.pos ≤ sub.pos
      omega
    · show sub.pos < _
      have hend' : sub.pos < s₁.pos + varintValue len := hend
      rw [List.length_append, hcount]
      show _ < s.pos + (len.length + varintValue len)
      omega

/-! ## Fields -/

/-- A value whose message ends early. -/
def EarlyValue (gprotos protos proto : Json) (bs : Bytes) : Prop :=
  ∃ sub body, HoldsMessage varintValue gprotos protos proto bs sub body ∧
    EndsEarly varintValue gprotos sub body

theorem readValue_outcome (hread : ReadsInStep buf gprotos read) (hs : s.Inside buf)
    (h : readValue buf gprotos proto protos read turns s = some (v, s')) :
    Outcome buf (IsValue varintValue (IsWhole varintValue gprotos) gprotos protos proto)
      (EarlyValue gprotos protos proto) s s' := by
  obtain ⟨type, htype, ⟨t, w, ht, hw, -⟩ | ⟨hnone, hmsgs, -, rfl⟩ | ⟨hnone, sub, hres, hmsg⟩⟩ :=
    readValue_cases h
  · obtain ⟨bs, htakes, hbs⟩ := readScalar_takes hs hw
    exact .inl ⟨bs, .scalar htype ht hbs, htakes⟩
  · exact .inl ⟨[], .blank htype hnone hmsgs, .refl buf s'⟩
  · obtain ⟨len, body, rest, hvarint, hlen, hahead, hleft, hend⟩ := readMessage_takes hread hs hmsg
    have hholds : HoldsMessage varintValue gprotos protos proto (len ++ body) sub body :=
      ⟨type, htype, hnone, hres, len, hvarint, hlen, rfl⟩
    obtain ⟨hwhole, htakes⟩ | ⟨hearly, hpos, hend⟩ := hend
    · exact .inl ⟨_, .message hholds hwhole, htakes⟩
    · refine .inr ⟨⟨_, rest, ⟨sub, body, hholds, hearly⟩, hahead⟩, ?_, hpos⟩
      rw [IStream.limit, IStream.limit]
      omega

/-- A packed field has a primitive type. -/
theorem fieldPacked_type (h : fieldPacked proto = true) :
    ∃ type t, fieldType proto = some type ∧ pbGetType type = some t := by
  rw [fieldPacked] at h
  rcases htype : fieldType proto with _ | type
  · simp [htype] at h
  · rcases ht : pbGetType type with _ | t
    · simp [htype, pbIsPacked, ht] at h
    · exact ⟨type, t, rfl, ht⟩

/-- The values of a packed array are primitive: they are read in step. -/
theorem readPacked_takes {n : ℕ} {vs : List Reading} {type : String} {t : PbType}
    (htype : fieldType proto = some type) (ht : pbGetType type = some t) (hs : s.Inside buf)
    (h : readPacked (readValue buf gprotos proto protos read turns) n s = some (vs, s')) :
    ∃ bs, IsValues varintValue (IsWhole varintValue gprotos) gprotos protos proto n bs ∧
      Takes buf s s' bs := by
  induction n generalizing s vs with
  | zero =>
    obtain ⟨-, rfl⟩ := Prod.mk.inj (Option.some.inj h)
    exact ⟨[], .nil, .refl buf s⟩
  | succ n ih =>
    obtain ⟨⟨v, s₁⟩, hv, hrest⟩ := Option.bind_eq_some_iff.mp h
    obtain ⟨⟨vs', s₂⟩, hvs, heq⟩ := Option.map_eq_some_iff.mp hrest
    obtain ⟨-, rfl⟩ := Prod.mk.inj heq
    obtain ⟨type', htype', ⟨t', w, ht', hw, -⟩ | ⟨hnone, -⟩ | ⟨hnone, -⟩⟩ := readValue_cases hv
    · obtain ⟨b, htakes, hb⟩ := readScalar_takes hs hw
      obtain ⟨bs, hbs, htakes'⟩ := ih (htakes.inside hs) hvs
      exact ⟨b ++ bs, .cons (.scalar htype' ht' hb) hbs, htakes.trans htakes'⟩
    · obtain rfl := Option.some.inj (htype.symm.trans htype')
      rw [hnone] at ht
      cases ht
    · obtain rfl := Option.some.inj (htype.symm.trans htype')
      rw [hnone] at ht
      cases ht

/-- A payload whose message ends early. -/
def EarlyPayload (gprotos protos proto : Json) (bs : Bytes) : Prop :=
  ∃ option, fieldOption proto = some option ∧ (IsSingle option ∨ option = "repeated") ∧
    EarlyValue gprotos protos proto bs

theorem readArray_outcome (hread : ReadsInStep buf gprotos read)
    (hopt : fieldOption proto = some "repeated") (hs : s.Inside buf) {vs : List Reading}
    (h : readArray buf gprotos proto protos read turns s = some (vs, s')) :
    Outcome buf (IsPayload varintValue (IsWhole varintValue gprotos) gprotos protos proto)
      (EarlyPayload gprotos protos proto) s s' := by
  rw [readArray] at h
  split at h
  · next hpacked =>
    rcases hlen : pbDecodeVarint32 buf s with ⟨_ | size, s₁⟩
    · rw [hlen] at h
      cases h
    · rw [hlen] at h
      obtain ⟨count, htakes, hcount, rfl⟩ := pbDecodeVarint32_takes hs hlen
      obtain ⟨type, t, htype, ht⟩ := fieldPacked_type hpacked
      obtain ⟨bs, hbs, htakes'⟩ := readPacked_takes htype ht (htakes.inside hs) h
      exact .inl ⟨_, .packed hopt hpacked hcount hbs, htakes.trans htakes'⟩
  · next hpacked =>
    obtain ⟨⟨v, s₁⟩, hv, heq⟩ := Option.map_eq_some_iff.mp h
    obtain ⟨-, rfl⟩ := Prod.mk.inj heq
    exact (readValue_outcome hread hs hv).mono
      (fun _ hw => .element hopt (Bool.eq_false_iff.mpr hpacked) hw)
      fun _ hw => ⟨_, hopt, .inr rfl, hw⟩

/-- An occurrence whose message ends early. -/
def EarlyOccurrence (gprotos protos : Json) (f : Bytes) : Prop :=
  ∃ sub body, Nests varintValue gprotos protos f sub body ∧
    EndsEarly varintValue gprotos sub body

/-- **A turn of the loop**: a tag and what stands behind it. -/
theorem readField_outcome {tag : ℕ} {items : List Item} {s₁ : IStream}
    (hread : ReadsInStep buf gprotos read) (hs : s.Inside buf)
    (htag : pbDecodeTag buf s = (.tag tag, s₁))
    (h : readField buf gprotos protos read turns tag s₁ = some (items, s')) :
    Outcome buf (IsOccurrence varintValue (IsWhole varintValue gprotos) gprotos protos)
      (EarlyOccurrence gprotos protos) s s' ∧ s.pos < s'.pos := by
  obtain ⟨bs, htakes, hbs⟩ := pbDecodeTag_takes hs htag
  have hin := htakes.inside hs
  obtain ⟨⟨name, proto⟩, hfield, h⟩ := Option.bind_eq_some_iff.mp h
  obtain ⟨option, hopt, h⟩ := Option.bind_eq_some_iff.mp h
  dsimp only at h
  -- a field that is neither single nor repeated has no payload at all
  have hpay : Outcome buf (IsPayload varintValue (IsWhole varintValue gprotos) gprotos protos proto)
      (EarlyPayload gprotos protos proto) s₁ s' := by
    split at h
    · next hsingle =>
      obtain ⟨⟨v, s₂⟩, hv, heq⟩ := Option.map_eq_some_iff.mp h
      obtain ⟨-, rfl⟩ := Prod.mk.inj heq
      exact (readValue_outcome hread hin hv).mono (fun _ hw => .single hopt hsingle hw)
        fun _ hw => ⟨_, hopt, .inl hsingle, hw⟩
    · next hsingle =>
      split at h
      · next hrep =>
        subst hrep
        obtain ⟨⟨vs, s₂⟩, hvs, heq⟩ := Option.map_eq_some_iff.mp h
        obtain ⟨-, rfl⟩ := Prod.mk.inj heq
        exact readArray_outcome hread hopt hin hvs
      · next hrep =>
        obtain ⟨-, rfl⟩ := Prod.mk.inj (Option.some.inj h)
        exact .inl ⟨[], .other hopt hsingle hrep, .refl buf s₁⟩
  refine ⟨Outcome.behind htakes hpay (fun _ hw => .mk hbs hfield hw) ?_, ?_⟩
  · rintro w ⟨option', hopt', hknown, sub, body, hholds, hearly⟩
    exact ⟨sub, body, .mk rfl hbs hfield hopt' hknown hholds, hearly⟩
  · have hlen : 0 < bs.length := by
      obtain ⟨⟨front, last, rfl, -⟩, -⟩ := hbs
      simp
    have hpos := htakes.pos
    have hle := hpay.pos_le
    omega

/-- One occurrence in step, then the others. -/
theorem Decoded.behind {s₁ : IStream} {f : Bytes}
    (hf : IsOccurrence varintValue (IsWhole varintValue gprotos) gprotos protos f)
    (htakes : Takes buf s s₁ f)
    (h : Decoded buf gprotos protos s₁ s') : Decoded buf gprotos protos s s' := by
  obtain ⟨fs, rest, hfs, htakes', hend⟩ | ⟨hout, hlimit, hpos⟩ := h
  · refine .inl ⟨f ++ fs, rest, .cons hf hfs, ?_, hend⟩
    rw [List.append_assoc]
    exact htakes.trans htakes'
  · refine .inr ⟨?_, htakes.limit_eq ▸ hlimit,
      (htakes.pos.ge.trans' (Nat.le_add_right _ _)).trans hpos⟩
    rw [htakes.bytes]
    exact (hout.cons hf).outOfStep

theorem Decoded.limit_le (h : Decoded buf gprotos protos s s') : s'.limit ≤ s.limit := by
  obtain ⟨_, _, -, htakes, -⟩ | ⟨-, hlimit, -⟩ := h
  · exact htakes.limit_eq.le
  · exact hlimit.le

theorem Decoded.pos_le (h : Decoded buf gprotos protos s s') : s.pos ≤ s'.pos := by
  obtain ⟨_, _, -, htakes, -⟩ | ⟨-, -, hpos⟩ := h
  · exact htakes.pos.ge.trans' (Nat.le_add_right _ _)
  · exact hpos

/-- **The readers follow the grammar**, at every level of every schema. -/
theorem readItems_inStep (buf : Bytes) (gprotos : Json) (turns : ℕ) :
    ReadsInStep buf gprotos (readItems buf gprotos turns) := by
  have hdone : ∀ {protos s}, s.bytesLeft = 0 → Decoded buf gprotos protos s s :=
    fun hleft => .inl ⟨[], [], .nil, .refl buf _, .inr ⟨.inl rfl, hleft⟩⟩
  induction turns with
  | zero =>
    intro protos s items s' hs h
    rw [readItems] at h
    split at h
    · next hleft =>
      obtain ⟨-, rfl⟩ := Prod.mk.inj (Option.some.inj h)
      exact hdone hleft
    · cases h
  | succ turns ih =>
    intro protos s items s' hs h
    rw [readItems] at h
    split at h
    · next hleft =>
      obtain ⟨-, rfl⟩ := Prod.mk.inj (Option.some.inj h)
      exact hdone hleft
    · next hleft =>
      rcases htag : pbDecodeTag buf s with ⟨tag | _ | _, s₁⟩
      · rw [htag] at h
        obtain ⟨⟨items₁, s₂⟩, hfield, h⟩ := Option.bind_eq_some_iff.mp h
        obtain ⟨⟨items₂, s₃⟩, hrest, heq⟩ := Option.map_eq_some_iff.mp h
        obtain ⟨-, rfl⟩ := Prod.mk.inj heq
        obtain ⟨hturn, -⟩ := readField_outcome ih hs htag hfield
        have hin : s₂.Inside buf := hturn.limit_le.trans hs
        have hdecoded := ih _ _ _ _ hin hrest
        obtain ⟨f, hf, htakes⟩ | hslips := hturn
        · exact hdecoded.behind hf htakes
        · -- what follows is read from the wrong place, and the end never comes back
          obtain ⟨f, rest, ⟨sub, body, hnests, hearly⟩, hahead⟩ := hslips.ahead
          have hloses : LosesStep varintValue gprotos protos 1 (s.ahead buf) :=
            ⟨[], f, rest, sub, body, hahead, Nat.one_pos, .nil, hnests, hearly⟩
          exact .inr ⟨hloses.outOfStep, hdecoded.limit_le.trans_lt hslips.limit_lt,
            hslips.pos_le.trans hdecoded.pos_le⟩
      · rw [htag] at h
        obtain ⟨-, rfl⟩ := Prod.mk.inj (Option.some.inj h)
        obtain ⟨e, htakes, hend⟩ := pbDecodeTag_eof hs hleft htag
        refine .inl ⟨[], e, .nil, htakes, ?_⟩
        exact hend.imp_right fun hcut => ⟨.inr (.inr hcut.1), hcut.2⟩
      · rw [htag] at h
        cases h

/-! ## Successful points -/

/-- From `s`, a successful run of `pb_decode` at the level `protos` comes to `s'`: the head of
the loop after some turns, or the end. -/
inductive Passes (buf : Bytes) (gprotos protos : Json) : IStream → IStream → Prop
  /-- before the first turn -/
  | start (s : IStream) : Passes buf gprotos protos s s
  /-- a tag and its field -/
  | turn {turns tag : ℕ} {result result' : Json} {s s₁ s₂ s' : IStream} : s.bytesLeft ≠ 0 →
      pbDecodeTag buf s = (.tag tag, s₁) →
      pbDecodeField buf gprotos protos (pbDecode buf gprotos turns) tag result s₁ =
        .ok (result', s₂) →
      Passes buf gprotos protos s₂ s' → Passes buf gprotos protos s s'
  /-- a tag that ends the message -/
  | stop {s s' : IStream} : s.bytesLeft ≠ 0 → pbDecodeTag buf s = (.eof, s') →
      Passes buf gprotos protos s s'

/-- The stream that `pb_decode` returns is such a point. -/
theorem pbDecode_passes {result r : Json}
    (h : pbDecode buf gprotos turns protos result s = .ok (r, s')) :
    Passes buf gprotos protos s s' := by
  induction turns generalizing result s with
  | zero =>
    rw [pbDecode] at h
    split at h
    · obtain ⟨-, rfl⟩ := Prod.mk.inj (Except.ok.inj h)
      exact .start s
    · cases h
  | succ turns ih =>
    rw [pbDecode] at h
    split at h
    · obtain ⟨-, rfl⟩ := Prod.mk.inj (Except.ok.inj h)
      exact .start s
    · next hleft =>
      rcases htag : pbDecodeTag buf s with ⟨tag | _ | _, s₁⟩
      · rw [htag] at h
        obtain ⟨⟨r₁, s₂⟩, hfield, hrest⟩ := bind_eq_ok.mp h
        exact .turn hleft htag hfield (ih hrest)
      · rw [htag] at h
        obtain ⟨-, rfl⟩ := Prod.mk.inj (Except.ok.inj h)
        exact .stop hleft htag
      · rw [htag] at h
        cases h

/-- What lies between the start of a run and one of its points. -/
def Passed (buf : Bytes) (gprotos protos : Json) (s s' : IStream) : Prop :=
  (∃ fs rest, IsOccurrences varintValue (IsWhole varintValue gprotos) gprotos protos fs ∧
      Takes buf s s' (fs ++ rest) ∧
      (rest = [] ∨ Final varintValue (rest ++ s'.ahead buf))) ∨
    (LosesStep varintValue gprotos protos (s'.pos - s.pos) (s.ahead buf) ∧ s'.limit < s.limit)

theorem Passes.pos_le (hs : s.Inside buf) (h : Passes buf gprotos protos s s') :
    s.pos ≤ s'.pos ∧ s'.limit ≤ s.limit := by
  induction h with
  | start s => exact ⟨le_rfl, le_rfl⟩
  | turn hleft htag hfield _ ih =>
    obtain ⟨items, hitems, -⟩ := pbDecodeField_reads (pbDecode_reads buf gprotos _) hfield
    obtain ⟨hturn, hpos⟩ := readField_outcome (readItems_inStep buf gprotos _) hs htag hitems
    obtain ⟨hle, hlimit⟩ := ih (hturn.limit_le.trans hs)
    exact ⟨hpos.le.trans hle, hlimit.trans hturn.limit_le⟩
  | stop hleft htag =>
    obtain ⟨e, htakes, -⟩ := pbDecodeTag_eof hs hleft htag
    exact ⟨htakes.pos.ge.trans' (Nat.le_add_right _ _), htakes.limit_eq.le⟩

/-- **Every point of a run** is reached in step or lies behind a message that ends early. -/
theorem Passes.passed (hs : s.Inside buf) (h : Passes buf gprotos protos s s') :
    Passed buf gprotos protos s s' := by
  induction h with
  | start s => exact .inl ⟨[], [], .nil, .refl buf s, .inl rfl⟩
  | @turn turns tag result result' s s₁ s₂ s' hleft htag hfield hrest ih =>
    obtain ⟨items, hitems, -⟩ := pbDecodeField_reads (pbDecode_reads buf gprotos _) hfield
    obtain ⟨hturn, hpos⟩ := readField_outcome (readItems_inStep buf gprotos _) hs htag hitems
    have hin : s₂.Inside buf := hturn.limit_le.trans hs
    obtain ⟨hle, hlimit⟩ := hrest.pos_le hin
    obtain ⟨f, hf, htakes⟩ | hslips := hturn
    · -- in step so far: the induction hypothesis decides
      obtain ⟨fs, rest, hfs, htakes', hend⟩ | ⟨hloses, hlt⟩ := ih hin
      · refine .inl ⟨f ++ fs, rest, .cons hf hfs, ?_, hend⟩
        rw [List.append_assoc]
        exact htakes.trans htakes'
      · refine .inr ⟨?_, htakes.limit_eq ▸ hlt⟩
        have hshift : s'.pos - s.pos = f.length + (s'.pos - s₂.pos) := by
          have hf' := htakes.pos
          omega
        rw [htakes.bytes, hshift]
        exact hloses.cons hf
    · -- out of step from this field on
      obtain ⟨f, rest, ⟨sub, body, hnests, hearly⟩, hahead⟩ := hslips.ahead
      exact .inr ⟨⟨[], f, rest, sub, body, hahead, Nat.sub_pos_of_lt (hpos.trans_le hle), .nil,
        hnests, hearly⟩, hlimit.trans_lt hslips.limit_lt⟩
  | @stop s s' hleft htag =>
    obtain ⟨e, htakes, hend⟩ := pbDecodeTag_eof hs hleft htag
    refine .inl ⟨[], e, .nil, htakes, .inr ?_⟩
    obtain hzero | ⟨hcut, hnone⟩ := hend
    · exact hzero.final _
    · rw [IStream.ahead_of_left hnone, List.append_nil]
      exact hcut.final

/-- A point is reached in step exactly if no message before it ends early. -/
theorem Passes.limit_eq_iff (hs : s.Inside buf) (h : Passes buf gprotos protos s s') :
    s'.limit = s.limit ↔ ¬ LosesStep varintValue gprotos protos (s'.pos - s.pos) (s.ahead buf) := by
  obtain ⟨fs, rest, hfs, htakes, hend⟩ | ⟨hloses, hlimit⟩ := h.passed hs
  · apply iff_of_true htakes.limit_eq
    rw [htakes.bytes, List.append_assoc]
    obtain rfl | hfinal := hend
    · rw [htakes.pos, List.append_nil, Nat.add_sub_cancel_left]
      exact hfs.not_losesStep
    · exact hfs.not_losesStep_final hfinal
  · exact iff_of_false hlimit.ne (not_not.mpr hloses)

/-- A run that returns stayed in step exactly if no message in its region ends early. -/
theorem Decoded.limit_eq_iff (h : Decoded buf gprotos protos s s') :
    s'.limit = s.limit ↔ ¬ OutOfStep varintValue gprotos protos (s.ahead buf) := by
  obtain ⟨fs, rest, hfs, htakes, hend⟩ | ⟨hout, hlimit, -⟩ := h
  · apply iff_of_true htakes.limit_eq
    rw [htakes.bytes, List.append_assoc]
    apply hfs.not_losesStep_final
    obtain hzero | ⟨hwhole, hnone⟩ := hend
    · exact hzero.final _
    · rw [IStream.ahead_of_left hnone, List.append_nil]
      exact hwhole.final
  · exact iff_of_false hlimit.ne (not_not.mpr hout)

/-- The same for the decoder itself. -/
theorem pbDecode_limit_eq_iff {result r : Json} (hs : s.Inside buf)
    (h : pbDecode buf gprotos turns protos result s = .ok (r, s')) :
    s'.limit = s.limit ↔ ¬ OutOfStep varintValue gprotos protos (s.ahead buf) := by
  obtain ⟨items, hitems, -⟩ := pbDecode_reads buf gprotos turns _ _ _ _ _ h
  exact (readItems_inStep buf gprotos turns _ _ _ _ hs hitems).limit_eq_iff

/-! ## The whole buffer -/

theorem pbIstreamFromBuffer_inside (buf : Bytes) : (pbIstreamFromBuffer buf.length).Inside buf :=
  (Nat.zero_add _).le

theorem pbIstreamFromBuffer_ahead (buf : Bytes) :
    (pbIstreamFromBuffer buf.length).ahead buf = buf := List.take_length

/-- `pc_pb_decode` is `pb_decode` over all of it. -/
theorem pcPbDecode_run {result r : Json} (h : pcPbDecode buf gprotos protos result = .ok r) :
    ∃ s', pbDecode buf gprotos buf.length protos result (pbIstreamFromBuffer buf.length) =
      .ok (r, s') := by
  rw [pcPbDecode] at h
  split at h
  · next s' hrun => exact ⟨s', Except.ok.inj h ▸ hrun⟩
  · cases h

end Messages

/-! ## Where the parent goes on -/

/-- **When the pointer and the count stay together**, for every buffer, every schema and every
stream inside the buffer.

* Behind a submessage the parent goes on exactly behind its declared length if and only if
  neither its body nor a message nested in it is ended by a zero tag with bytes left.
* A run of `pb_decode` that returns leaves pointer and count at the end of its region if and
  only if no message nested in the region ends so.
* A point of a run, however it ends, is at the end of the region by pointer and count if and
  only if no message that starts before that point ends so. -/
theorem inStep_iff (buf : Bytes) (gprotos : Json) :
    (∀ turns level dest s r s', s.Inside buf →
      pbDecodeSubmessage buf (pbDecode buf gprotos turns level dest) s = .ok (r, s') →
      ∃ len body rest, s.ahead buf = len ++ body ++ rest ∧ IsVarint len ∧
        varintValue len = body.length ∧
        (s'.pos = s.pos + len.length + body.length ↔ ¬ EndsEarly varintValue gprotos level body)) ∧
    (∀ turns protos result s r s', s.Inside buf →
      pbDecode buf gprotos turns protos result s = .ok (r, s') →
      (s'.pos + s'.bytesLeft = s.pos + s.bytesLeft ↔
        ¬ OutOfStep varintValue gprotos protos (s.ahead buf))) ∧
    ∀ protos s s', s.Inside buf → Passes buf gprotos protos s s' →
      (s'.pos + s'.bytesLeft = s.pos + s.bytesLeft ↔
        ¬ LosesStep varintValue gprotos protos (s'.pos - s.pos) (s.ahead buf)) := by
  refine ⟨?_, ?_, fun protos s s' hs h => h.limit_eq_iff hs⟩
  · intro turns level dest s r s' hs h
    obtain ⟨s₁, s₂, hread, -⟩ := pbDecodeSubmessage_reads (pbDecode_reads buf gprotos turns) h
    obtain ⟨len, body, rest, hlen, hsize, hahead, -, hend⟩ :=
      readMessage_takes (readItems_inStep buf gprotos turns) hs hread
    refine ⟨len, body, rest, hahead, hlen, hsize, ?_⟩
    obtain ⟨hwhole, htakes⟩ | ⟨hearly, -, hlt⟩ := hend
    · have hpos := htakes.pos
      rw [List.length_append, ← Nat.add_assoc] at hpos
      exact iff_of_true hpos fun hearly => hearly.not_whole hwhole
    · rw [List.length_append] at hlt
      exact iff_of_false (by omega) (not_not.mpr hearly)
  · exact fun _ _ _ _ _ _ hs h => pbDecode_limit_eq_iff hs h

/-- The schema whose level refers to itself, with its message type. -/
def chainProtos : Json := .obj [("message T", chainLevel)]

theorem conforming_chainLevel : ConformingSchema chainProtos chainLevel := by
  refine ⟨fun level => level = chainLevel, rfl, ?_⟩
  rintro _ rfl
  refine ⟨⟨.obj [], rfl⟩, .obj [("1", .str "next")], rfl, ?_⟩
  intro key proto hkey
  obtain ⟨rfl, rfl⟩ := isField_single hkey
  exact ⟨.inr (.inl rfl), ⟨1, le_rfl, by decide, rfl, rfl⟩, "T", rfl,
    fun _ => ⟨chainLevel, rfl, rfl⟩⟩

/-- A message in a message, read in step: a submessage with an empty body, the run around it and
the same run as a point of its own. -/
theorem inStep_iff_chain :
    (∃ len body rest, IStream.ahead [10, 2, 10, 0] ⟨3, 1, 3⟩ = len ++ body ++ rest ∧
        IsVarint len ∧ varintValue len = body.length ∧
        (4 = 3 + len.length + body.length ↔ ¬ EndsEarly varintValue chainProtos chainLevel body)) ∧
      (4 + 0 = 0 + 4 ↔
        ¬ OutOfStep varintValue chainProtos chainLevel (IStream.ahead [10, 2, 10, 0] ⟨0, 4, 0⟩)) ∧
      (4 + 0 = 0 + 4 ↔
        ¬ LosesStep varintValue chainProtos chainLevel (4 - 0)
          (IStream.ahead [10, 2, 10, 0] ⟨0, 4, 0⟩)) := by
  have hrun : pbDecode [10, 2, 10, 0] chainProtos 4 chainLevel (.obj []) ⟨0, 4, 0⟩ =
      .ok (.obj [("next", .obj [("next", .obj [])])], ⟨4, 0, 4⟩) := rfl
  obtain ⟨hsub, hwhole, hpoint⟩ := inStep_iff [10, 2, 10, 0] chainProtos
  exact ⟨hsub 1 chainLevel (.obj []) ⟨3, 1, 3⟩ (.obj []) ⟨4, 0, 4⟩ (by decide) rfl,
    hwhole 4 chainLevel (.obj []) ⟨0, 4, 0⟩ _ _ (by decide) hrun,
    hpoint chainLevel ⟨0, 4, 0⟩ ⟨4, 0, 4⟩ (by decide) (pbDecode_passes hrun)⟩

/-- A body of two bytes that starts with a zero tag: the parent goes on at its second byte. -/
theorem not_inStep_zeroTag :
    ¬ ∀ (buf : Bytes) (gprotos level : Json), ConformingSchema gprotos level →
      ∀ turns dest s r s₁ size s', s.Inside buf →
        pbDecodeVarint32 buf s = (some size, s₁) →
        pbDecodeSubmessage buf (pbDecode buf gprotos turns level dest) s = .ok (r, s') →
        s'.pos = s₁.pos + size := by
  intro hall
  have hpos := hall [10, 2, 0, 10] chainProtos chainLevel conforming_chainLevel 3 (.obj [])
    ⟨1, 3, 1⟩ (.obj []) ⟨2, 2, 2⟩ 2 ⟨3, 0, 3⟩ (by decide) (by decide) rfl
  cases hpos

end Libpomelo
