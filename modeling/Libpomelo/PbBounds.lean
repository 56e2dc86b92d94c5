import Libpomelo.PbWire

/-!
# What the protobuf decoder reads

The decoder trusts counts and lengths of the buffer, and a schema may refer to itself.
Two facts keep it in bounds for every buffer and every schema:

* no function moves the read pointer back, or lets the pointer and `bytes_left`
  together pass the end they had before (`IStream.Within`); a substream starts with
  its declared length, so the same holds of it with the end of the submessage;
* every turn of the loop in `pb_decode`, and so every nested message, reads a byte of
  its own, so as many turns as bytes are enough.

`Bounded` is both at once, for the outcome of a decoder function.
-/

namespace Libpomelo

/-! ## Streams -/

/-- **Within.** `s'` is `s` after some reads, all of them inside the bytes `s` had
left. -/
structure IStream.Within (s s' : IStream) : Prop where
  /-- the pointer does not move back -/
  pos_le : s.pos ≤ s'.pos
  /-- nothing is given back -/
  left_le : s'.bytesLeft ≤ s.bytesLeft
  /-- the end of the stream stays -/
  fence : s'.pos + s'.bytesLeft ≤ s.pos + s.bytesLeft
  /-- all reads were below the pointer -/
  reach_le : s'.reach ≤ max s.reach s'.pos

theorem IStream.Within.refl (s : IStream) : s.Within s :=
  ⟨le_rfl, le_rfl, le_rfl, le_max_left _ _⟩

theorem IStream.Within.trans {s₁ s₂ s₃ : IStream} (h : s₁.Within s₂) (h' : s₂.Within s₃) :
    s₁.Within s₃ where
  pos_le := h.pos_le.trans h'.pos_le
  left_le := h'.left_le.trans h.left_le
  fence := h'.fence.trans h.fence
  reach_le := by
    have hreach := h.reach_le
    have hreach' := h'.reach_le
    have hpos := h'.pos_le
    omega

/-- The highest offset read lies below the end the stream had. -/
theorem IStream.Within.reach_le_end {s s' : IStream} (h : s.Within s') (hs : s.reach ≤ s.pos) :
    s'.reach ≤ s.pos + s.bytesLeft := by
  have hpos := h.pos_le
  have hreach := h.reach_le
  have hfence := h.fence
  omega

/-- A submessage of `size` bytes, read within these, closed again. -/
theorem IStream.Within.close {s sub : IStream} {size : ℕ} (hsize : size ≤ s.bytesLeft)
    (h : IStream.Within { s with bytesLeft := size } sub) :
    s.Within ⟨sub.pos, s.bytesLeft - size, sub.reach⟩ where
  pos_le := h.pos_le
  left_le := Nat.sub_le _ _
  fence := by
    have hfence : sub.pos + sub.bytesLeft ≤ s.pos + size := h.fence
    dsimp only
    omega
  reach_le := h.reach_le

section Buffer

variable {buf : Bytes} {s : IStream}

theorem pbRead_within (count : ℕ) : s.Within (pbRead buf s count).2 := by
  rw [pbRead]
  split
  · exact .refl s
  · next hroom =>
    refine ⟨Nat.le_add_right _ _, Nat.sub_le _ _, ?_, ?_⟩
    · show s.pos + count + (s.bytesLeft - count) ≤ _
      omega
    · show (if count = 0 then s.reach else max s.reach (s.pos + count)) ≤ _
      split
      · exact le_max_left _ _
      · exact le_rfl

/-- Bytes that are read are not left any more. -/
theorem pbRead_some {count : ℕ} {bytes : Bytes} {s' : IStream}
    (h : pbRead buf s count = (some bytes, s')) :
    bytes.length ≤ count ∧ s'.bytesLeft + count = s.bytesLeft := by
  rw [pbRead] at h
  split at h
  · cases h
  · next hroom =>
    obtain ⟨hbytes, rfl⟩ := Prod.mk.inj h
    obtain rfl := Option.some.inj hbytes
    refine ⟨List.length_take_le _ _, ?_⟩
    show s.bytesLeft - count + count = _
    omega

theorem varintRead_within (n : ℕ) :
    ∀ bitpos dest s, IStream.Within s (varintRead buf n bitpos dest s).2 := by
  induction n with
  | zero => exact fun _ _ s => .refl s
  | succ n ih =>
    intro bitpos dest s
    have hread := @pbRead_within buf s 1
    rw [varintRead]
    rcases hr : pbRead buf s 1 with ⟨_ | bytes, s₁⟩
    · rw [hr] at hread
      exact hread
    · rw [hr] at hread
      dsimp only
      split
      · exact hread
      · exact hread.trans (ih _ _ _)

/-- A varint has a first byte. -/
theorem varintRead_left {n : ℕ} :
    ∀ {bitpos dest m : ℕ} {s s' : IStream}, varintRead buf n bitpos dest s = (some m, s') →
      s'.bytesLeft < s.bytesLeft := by
  cases n with
  | zero =>
    intro bitpos dest m s s' h
    cases h
  | succ n =>
    intro bitpos dest m s s' h
    rw [varintRead] at h
    rcases hr : pbRead buf s 1 with ⟨_ | bytes, s₁⟩
    · rw [hr] at h
      cases h
    · have hleft := (pbRead_some hr).2
      rw [hr] at h
      dsimp only at h
      split at h
      · obtain ⟨-, rfl⟩ := Prod.mk.inj h
        omega
      · have hrest := (@varintRead_within buf n (bitpos + 7)
          (dest ||| ((bytes.headD 0).toNat &&& 0x7f) <<< bitpos % 2 ^ 64) s₁).left_le
        rw [h] at hrest
        exact Nat.lt_of_le_of_lt hrest (by omega)

theorem pbDecodeVarint_within : s.Within (pbDecodeVarint buf s).2 := varintRead_within 10 0 0 s

theorem pbDecodeVarint32_within : s.Within (pbDecodeVarint32 buf s).2 := pbDecodeVarint_within

theorem pbDecodeVarint32_lt {n : ℕ} {s' : IStream} (h : pbDecodeVarint32 buf s = (some n, s')) :
    s'.bytesLeft < s.bytesLeft := by
  obtain ⟨hsome, rfl⟩ := Prod.mk.inj h
  obtain ⟨m, hm, -⟩ := Option.map_eq_some_iff.mp hsome
  exact varintRead_left (Prod.ext hm rfl)

theorem pbDecodeTag_within : s.Within (pbDecodeTag buf s).2 := by
  have hvarint := @pbDecodeVarint32_within buf s
  rw [pbDecodeTag]
  generalize pbDecodeVarint32 buf s = r at hvarint ⊢
  obtain ⟨_ | temp, s₁⟩ := r
  · exact hvarint
  · exact hvarint

/-- A tag is at least one byte. -/
theorem pbDecodeTag_lt {n : ℕ} {s' : IStream} (h : pbDecodeTag buf s = (.tag n, s')) :
    s'.bytesLeft < s.bytesLeft := by
  rw [pbDecodeTag] at h
  rcases hread : pbDecodeVarint32 buf s with ⟨_ | temp, s₁⟩
  · rw [hread] at h
    dsimp only at h
    split at h <;> cases h
  · rw [hread] at h
    obtain ⟨-, rfl⟩ := Prod.mk.inj h
    exact pbDecodeVarint32_lt hread

end Buffer

/-! ## Outcomes -/

/-- The stream that a decoder function leaves. -/
def Dec.stream : Dec → IStream
  | .ok (_, s) => s
  | .error (_, s) => s

/-- **Bounded.** The function read within the bytes of `s`, and if these are no more
than `turns`, it did not stop for want of turns. -/
structure Bounded (turns : ℕ) (s : IStream) (d : Dec) : Prop where
  /-- all reads are inside -/
  within : s.Within d.stream
  /-- the turns were enough -/
  returns : s.bytesLeft ≤ turns → ∀ s', d ≠ .error (.outOfTurns, s')

section Decoder

variable {buf : Bytes} {turns : ℕ} {s : IStream}

theorem Bounded.ok {s' : IStream} (h : s.Within s') (result : Json) :
    Bounded turns s (.ok (result, s')) := ⟨h, fun _ _ => by simp⟩

theorem Bounded.stop {s' : IStream} {stop : PbDecStop} (h : s.Within s')
    (hstop : stop ≠ .outOfTurns) : Bounded turns s (.error (stop, s')) :=
  ⟨h, fun _ _ he => hstop (Prod.mk.inj (Except.error.inj he)).1⟩

/-- A function that starts where another one ended. -/
theorem Bounded.behind {s₁ : IStream} {d : Dec} (h : Bounded turns s₁ d) (hs : s.Within s₁) :
    Bounded turns s d :=
  ⟨hs.trans h.within, fun hle => h.returns (hs.left_le.trans hle)⟩

/-- The same behind a byte that is read: one more turn is allowed for. -/
theorem Bounded.turn {s₁ : IStream} {d : Dec} (h : Bounded turns s₁ d) (hs : s.Within s₁)
    (hlt : s₁.bytesLeft < s.bytesLeft) : Bounded (turns + 1) s d :=
  ⟨hs.trans h.within, fun hle => h.returns (Nat.le_of_lt_succ (Nat.lt_of_lt_of_le hlt hle))⟩

/-- One function after another. -/
theorem Bounded.bind {d : Dec} {f : Json × IStream → Dec} (h : Bounded turns s d)
    (hf : ∀ result s₁, d = .ok (result, s₁) → Bounded turns s₁ (f (result, s₁))) :
    Bounded turns s (d >>= f) := by
  rcases hd : d with ⟨stop, s₁⟩ | ⟨result, s₁⟩
  · rw [← hd]
    subst hd
    exact ⟨h.within, h.returns⟩
  · subst hd
    exact (hf result s₁ rfl).behind h.within

theorem putScalar_bounded {r : Option (Option Json) × IStream} (h : s.Within r.2) (result : Json)
    (key : Option String) : Bounded turns s (putScalar result key r) := by
  obtain ⟨_ | v, s₁⟩ := r
  · exact .stop h (by decide)
  · exact .ok h _

/-- A submessage is read inside its declared length. -/
theorem pbDecodeSubmessage_bounded {dec : IStream → Dec} (hdec : ∀ s, Bounded turns s (dec s)) :
    Bounded turns s (pbDecodeSubmessage buf dec s) := by
  have hvarint := @pbDecodeVarint32_within buf s
  rw [pbDecodeSubmessage]
  rcases hread : pbDecodeVarint32 buf s with ⟨_ | size, s₁⟩
  · rw [hread] at hvarint
    exact .stop hvarint (by decide)
  · rw [hread] at hvarint
    dsimp only
    split
    · exact .stop hvarint (by decide)
    · next hroom =>
      have hsize := Nat.not_lt.mp hroom
      have hsub := hdec { s₁ with bytesLeft := size }
      rcases hd : dec { s₁ with bytesLeft := size } with ⟨stop, sub⟩ | ⟨dest, sub⟩
      · rw [hd] at hsub
        refine Bounded.behind ⟨hsub.within.close hsize, fun hle s' he => ?_⟩ hvarint
        obtain ⟨rfl, -⟩ := Prod.mk.inj (Except.error.inj he)
        exact hsub.returns (hsize.trans hle) sub rfl
      · rw [hd] at hsub
        exact .ok (hvarint.trans (hsub.within.close hsize)) dest

theorem pbDecodeStringValue_within :
    (∀ text s', pbDecodeStringValue buf s = .ok (text, s') → s.Within s') ∧
      ∀ stop s', pbDecodeStringValue buf s = .error (stop, s') →
        s.Within s' ∧ stop ≠ .outOfTurns := by
  have hvarint := @pbDecodeVarint32_within buf s
  rw [pbDecodeStringValue]
  generalize pbDecodeVarint32 buf s = r at hvarint ⊢
  obtain ⟨_ | len, s₁⟩ := r
  · refine ⟨fun _ _ h => ?_, fun stop s' h => ?_⟩
    · cases h
    · obtain ⟨rfl, rfl⟩ := Prod.mk.inj (Except.error.inj h)
      exact ⟨hvarint, by decide⟩
  · dsimp only
    split
    · refine ⟨fun _ _ h => ?_, fun stop s' h => ?_⟩
      · cases h
      · obtain ⟨rfl, rfl⟩ := Prod.mk.inj (Except.error.inj h)
        exact ⟨hvarint, by decide⟩
    · have hread := @pbRead_within buf s₁ len
      generalize pbRead buf s₁ len = r at hread ⊢
      obtain ⟨_ | text, s₂⟩ := r
      · refine ⟨fun _ _ h => ?_, fun stop s' h => ?_⟩
        · cases h
        · obtain ⟨rfl, rfl⟩ := Prod.mk.inj (Except.error.inj h)
          exact ⟨hvarint.trans hread, by decide⟩
      · refine ⟨fun text' s' h => ?_, fun _ _ h => ?_⟩
        · obtain ⟨rfl, rfl⟩ := Prod.mk.inj (Except.ok.inj h)
          exact hvarint.trans hread
        · cases h

/-- One value, with `dec` bounded. -/
theorem pbDecodeProto_bounded {gprotos proto protos result : Json} {key : Option String}
    {dec : Json → Json → IStream → Dec}
    (hdec : ∀ level dest s, Bounded turns s (dec level dest s)) :
    Bounded turns s (pbDecodeProto buf gprotos proto protos dec key result s) := by
  rw [pbDecodeProto]
  split
  · exact .stop (.refl s) (by decide)
  · split
    · exact putScalar_bounded pbDecodeVarint_within _ _
    · exact putScalar_bounded pbDecodeVarint_within _ _
    · exact putScalar_bounded pbDecodeVarint_within _ _
    · exact putScalar_bounded (pbRead_within 4) _ _
    · exact putScalar_bounded (pbRead_within 8) _ _
    · obtain ⟨hok, hstop⟩ := @pbDecodeStringValue_within buf s
      rcases hstr : pbDecodeStringValue buf s with ⟨stop, s₁⟩ | ⟨text, s₁⟩
      · obtain ⟨hwithin, hne⟩ := hstop stop s₁ hstr
        exact .stop hwithin hne
      · exact .ok (hok text s₁ hstr) _
    · split
      · exact .ok (.refl s) _
      · split
        · exact .stop (.refl s) (by decide)
        · split
          · exact pbDecodeSubmessage_bounded (hdec _ _)
          · exact (pbDecodeSubmessage_bounded (hdec _ _)).bind fun _ _ _ => .ok (.refl _) _

/-- The elements of a packed array, whatever their number. -/
theorem pbDecodePacked_bounded {read : Json → IStream → Dec}
    (hread : ∀ array s, Bounded turns s (read array s)) (n : ℕ) :
    ∀ array s, Bounded turns s (pbDecodePacked read n array s) := by
  induction n with
  | zero => exact fun array s => .ok (.refl s) array
  | succ n ih =>
    intro array s
    rw [pbDecodePacked]
    exact (hread array s).bind fun array' s₁ _ => ih array' s₁

theorem pbDecodeArray_bounded {gprotos proto protos result : Json} {key : String}
    {dec : Json → Json → IStream → Dec}
    (hdec : ∀ level dest s, Bounded turns s (dec level dest s)) :
    Bounded turns s (pbDecodeArray buf gprotos proto protos dec key result s) := by
  have hproto : ∀ key result s,
      Bounded turns s (pbDecodeProto buf gprotos proto protos dec key result s) :=
    fun _ _ _ => pbDecodeProto_bounded hdec
  rw [pbDecodeArray]
  split
  · exact .stop (.refl s) (by decide)
  · refine Bounded.bind ?_ fun _ _ _ => .ok (.refl _) _
    split
    · have hvarint := @pbDecodeVarint32_within buf s
      generalize pbDecodeVarint32 buf s = r at hvarint ⊢
      obtain ⟨_ | size, s₁⟩ := r
      · exact .stop hvarint (by decide)
      · exact (pbDecodePacked_bounded (fun array s => hproto _ array s) size _ s₁).behind hvarint
    · split
      · exact hproto _ _ s
      · exact (hproto _ _ s).bind fun _ _ _ => .ok (.refl _) _

theorem pbDecodeField_bounded {gprotos protos result : Json} {tag : ℕ}
    {dec : Json → Json → IStream → Dec}
    (hdec : ∀ level dest s, Bounded turns s (dec level dest s)) :
    Bounded turns s (pbDecodeField buf gprotos protos dec tag result s) := by
  rw [pbDecodeField]
  split
  · exact .stop (.refl s) (by decide)
  · split
    · exact .stop (.refl s) (by decide)
    · split
      · exact .stop (.refl s) (by decide)
      · split
        · exact .stop (.refl s) (by decide)
        · split
          · exact .stop (.refl s) (by decide)
          · split
            · exact pbDecodeProto_bounded hdec
            · split
              · exact pbDecodeArray_bounded hdec
              · exact .ok (.refl s) _

/-- **The decoder is bounded**, at every level of every schema. -/
theorem pbDecode_bounded (buf : Bytes) (gprotos : Json) (turns : ℕ) :
    ∀ protos result s, Bounded turns s (pbDecode buf gprotos turns protos result s) := by
  induction turns with
  | zero =>
    intro protos result s
    rw [pbDecode]
    split
    · exact .ok (.refl s) result
    · next hleft => exact ⟨.refl s, fun hle => absurd (Nat.le_zero.mp hle) hleft⟩
  | succ turns ih =>
    intro protos result s
    have htag := @pbDecodeTag_within buf s
    rw [pbDecode]
    split
    · exact .ok (.refl s) result
    · split
      · next s₁ hread =>
        rw [hread] at htag
        exact .ok htag result
      · next s₁ hread =>
        rw [hread] at htag
        exact .stop htag (by decide)
      · next tag s₁ hread =>
        rw [hread] at htag
        exact ((pbDecodeField_bounded ih).bind fun result' s₂ _ => ih protos result' s₂).turn htag
          (pbDecodeTag_lt hread)

end Decoder

/-- **Decoding ends, inside the buffer.** For every buffer and every schema: `pc_pb_decode`
returns before its turns run out, it reads no offset from the length of the buffer on,
and wherever a submessage of `size` bytes is decoded, nothing behind these is read. -/
theorem pbDecode_inside (buf : Bytes) (gprotos protos result : Json) :
    (∀ s, pbDecode buf gprotos buf.length protos result (pbIstreamFromBuffer buf.length) ≠
        .error (.outOfTurns, s)) ∧
      (pbDecode buf gprotos buf.length protos result
        (pbIstreamFromBuffer buf.length)).stream.reach ≤ buf.length ∧
      ∀ turns level dest size s s₁, s.reach ≤ s.pos → pbDecodeVarint32 buf s = (some size, s₁) →
        size ≤ s₁.bytesLeft →
        (pbDecodeSubmessage buf (pbDecode buf gprotos turns level dest) s).stream.reach ≤
          s₁.pos + size := by
  have hbounded := pbDecode_bounded buf gprotos buf.length protos result
    (pbIstreamFromBuffer buf.length)
  refine ⟨hbounded.returns le_rfl, ?_, ?_⟩
  · have hend := hbounded.within.reach_le_end (Nat.zero_le _)
    rwa [show (pbIstreamFromBuffer buf.length).pos + (pbIstreamFromBuffer buf.length).bytesLeft =
      buf.length from Nat.zero_add _] at hend
  · intro turns level dest size s s₁ hreach hread hroom
    have hvarint := @pbDecodeVarint32_within buf s
    have hsub := (pbDecode_bounded buf gprotos turns level dest
      { s₁ with bytesLeft := size }).within
    rw [hread] at hvarint
    -- what was read up to here lies in front of the substream
    have hstart : s₁.reach ≤ s₁.pos :=
      hvarint.reach_le.trans (max_le (hreach.trans hvarint.pos_le) le_rfl)
    have hend := hsub.reach_le_end hstart
    simp only [pbDecodeSubmessage, hread, if_neg (Nat.not_lt.mpr hroom)]
    generalize pbDecode buf gprotos turns level dest { s₁ with bytesLeft := size } = d at hend ⊢
    obtain ⟨stop, sub⟩ | ⟨r, sub⟩ := d
    · exact hend
    · exact hend

/-- A level that refers to itself. -/
def chainLevel : Json :=
  .obj [("__messages", .obj []), ("__tags", .obj [("1", .str "next")]),
    ("next", .obj [("option", .str "optional"), ("type", .str "T"), ("tag", .int 1)])]

/-- A message in a message, and the submessage behind the first tag. -/
theorem pbDecode_inside_chain :
    (pbDecode [10, 2, 10, 0] (.obj [("message T", chainLevel)]) 4 chainLevel (.obj [])
      (pbIstreamFromBuffer 4)).stream.reach ≤ 4 ∧
    (pbDecodeSubmessage [10, 2, 10, 0]
      (pbDecode [10, 2, 10, 0] (.obj [("message T", chainLevel)]) 3 chainLevel (.obj []))
      ⟨1, 3, 1⟩).stream.reach ≤ 2 + 2 := by
  obtain ⟨-, hreach, hsub⟩ := pbDecode_inside [10, 2, 10, 0] (.obj [("message T", chainLevel)])
    chainLevel (.obj [])
  exact ⟨hreach, hsub 3 chainLevel (.obj []) 2 ⟨1, 3, 1⟩ ⟨2, 2, 2⟩ (by decide) (by decide)
    (by decide)⟩

end Libpomelo
