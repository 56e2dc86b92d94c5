import Libpomelo.PbSchema

/-!
# The two runs of the protobuf encoder

Every submessage is encoded twice, once to count its bytes and once to store them, and
the top level may be encoded into any buffer. This file says what an encoder function
does on *every* stream, for every schema and every message:

* `encoding` is the outcome as a function of schema and message alone: the bytes, or
  why the encoder stops and the bytes in front of that point. A submessage is its own
  encoding behind its length.
* `shortage` is why it stops on a stream that has no room for that. It is refused,
  unless the sum that is compared with the limit has wrapped around.
* `Does enc r short` ties a function to the two. Whatever the stream, the function
  appends the bytes when there is room for them and stops as `short` says otherwise,
  and where it fails it has stored nothing behind its buffer.

No buffer has `2 ^ 63` bytes. The length of a string is kept in an `int`, and a string
of `2 ^ 31` bytes can have a negative one; then no buffer has room for it, and the sum
with its length, taken as a `size_t`, may wrap around.
-/

namespace Libpomelo

/-! ## The outcome of an encoder function -/

/-- The bytes, or why the encoder stops and what it has written until then. -/
abbrev Encoding : Type := Except (PbStop × Bytes) Bytes

/-- The number of bytes, up to where it stops. -/
def Encoding.size : Encoding → ℕ
  | .ok w => w.length
  | .error (_, w) => w.length

/-- One part behind another. -/
def Encoding.andThen : Encoding → Encoding → Encoding
  | .ok v, .ok w => .ok (v ++ w)
  | .ok v, .error (stop, w) => .error (stop, v ++ w)
  | .error e, _ => .error e

/-- A submessage behind its length; one that fails does so in the counting run, before
anything is written. -/
def Encoding.prefixed : Encoding → Encoding
  | .ok w => .ok (wirePrefixed w)
  | .error (stop, _) => .error (stop, [])

theorem Encoding.andThen_nil (r : Encoding) : r.andThen (.ok []) = r := by
  obtain ⟨stop, v⟩ | v := r
  · rfl
  · rw [andThen, List.append_nil]

theorem Encoding.size_andThen (v : Bytes) (r : Encoding) :
    (andThen (.ok v) r).size = v.length + r.size := by
  obtain ⟨stop, w⟩ | w := r
  · exact List.length_append
  · exact List.length_append

/-- `enc` on `s` stopped for the reason `stop`, with no more stored than the buffer holds. -/
def OStream.Stops (s : OStream) (stop : PbStop) (d : Enc) : Prop :=
  ∃ v : Bytes, (s.writing = true → s.out.length + v.length ≤ s.capacity) ∧
    d = .error (stop, s.emit v)

/-- The stream stores into a buffer that can exist, or into none. -/
def OStream.Real (s : OStream) : Prop := s.writing = true → s.capacity < 2 ^ 63

/-- What the limit leaves is in the buffer. -/
def OStream.Within (s : OStream) : Prop :=
  s.writing = true → s.out.length + s.maxSize ≤ s.capacity + s.bytesWritten

/-- What the outcome `r` means on the stream `s`, with `short` the reason to stop where
there is no room for it. -/
def Encoding.On (short : PbStop) (s : OStream) (d : Enc) : Encoding → Prop
  | .ok w => (s.Room w.length → d = .ok (s.emit w)) ∧ (¬ s.Room w.length → s.Stops short d)
  | .error (stop, v) => (s.Room v.length → s.Stops stop d) ∧ (¬ s.Room v.length → s.Stops short d)

/-- **Does.** From every sound stream `enc` has the outcome `r`, or stops as `short` says. -/
structure Does (enc : OStream → Enc) (r : Encoding) (short : OStream → PbStop) : Prop where
  /-- on every stream whose buffer can exist -/
  on : ∀ s : OStream, s.Sound → s.Real → r.On (short s) s (enc s)
  /-- where no sum wraps around, it is refused -/
  refused : ∀ s : OStream, s.Sound → s.Within → s.bytesWritten + r.size < 2 ^ 64 →
    ¬ s.Room r.size → short s = .refused
  /-- only where it is short of room does it leave its buffer -/
  stays : ∀ v, r ≠ .error (.overrun, v)

/-! ## Why there is no room -/

instance (s : OStream) (k : ℕ) : Decidable (s.Room k) :=
  inferInstanceAs (Decidable (s.writing = true → _))

/-- Why `pb_write` of `count` bytes fails. -/
def shortWrite (count : ℕ) (s : OStream) : PbStop :=
  if s.maxSize < (s.bytesWritten + count) % 2 ^ 64 then .refused else .overrun

/-- Nothing is written, so no room is needed. -/
def noShortage : OStream → PbStop := fun _ => .refused

/-- The first part `r` has no room, or what comes behind it. -/
def shortThen (r : Encoding) (first rest : OStream → PbStop) (s : OStream) : PbStop :=
  match r with
  | .ok v => if s.Room v.length then rest (s.emit v) else first s
  | .error _ => first s

/-- The body of `length` bytes has no room: the length fails the test, or the substream
runs short. -/
def shortBody (length : ℕ) (body : OStream → PbStop) (s : OStream) : PbStop :=
  if s.maxSize < (s.bytesWritten + length) % 2 ^ 64 then .refused else body (s.sub length)

/-- A submessage has no room: its length has none, or its body. -/
def shortPrefixed (r : Encoding) (body : OStream → PbStop) : OStream → PbStop :=
  match r with
  | .ok w =>
    let size := varintBytes (w.length % 2 ^ 64)
    shortThen (.ok size) (shortWrite size.length) (shortBody (w.length % 2 ^ 64) body)
  | .error _ => noShortage

section Outcomes

variable {s : OStream} {f g : OStream → Enc} {r r' : Encoding} {v w : Bytes} {stop : PbStop}
  {short short' : OStream → PbStop}

theorem OStream.Within.emit (hs : s.Sound) (h : s.Within) (hr : s.Room v.length) :
    (s.emit v).Within := by
  intro hw
  have hwithin := h hw
  rw [emit_bytesWritten (hs.room_lt hw hr), emit_out (s := s) hw, List.length_append, emit_maxSize,
    emit_capacity]
  omega

/-- There the limit is what is missed. -/
theorem OStream.Within.limit_lt (h : s.Within) {k : ℕ} (hr : ¬ s.Room k) :
    s.maxSize < s.bytesWritten + k := by
  obtain ⟨hw, hr⟩ := Classical.not_imp.mp hr
  have hwithin := h hw
  omega

theorem OStream.Stops.here (hs : s.Sound) (stop : PbStop) : s.Stops stop (.error (stop, s)) :=
  ⟨[], hs.inside, by rw [OStream.emit_nil hs]⟩

/-- What stops behind `v` stops in the whole. -/
theorem OStream.Stops.behind {d : Enc} (h : (s.emit v).Stops stop d) : s.Stops stop d := by
  obtain ⟨w, hw, rfl⟩ := h
  refine ⟨v ++ w, fun hwriting => ?_, by rw [OStream.emit_append]⟩
  have hstored := hw hwriting
  rw [OStream.emit_out hwriting, List.length_append, OStream.emit_capacity] at hstored
  rw [List.length_append]
  omega

theorem OStream.Stops.bind {d : Enc} {k : OStream → Enc} (h : s.Stops stop d) :
    s.Stops stop (d >>= k) := by
  obtain ⟨v, hv, rfl⟩ := h
  exact ⟨v, hv, rfl⟩

/-- What an outcome behind `v` means. -/
theorem Encoding.On.behind {d : Enc} (hs : s.Sound) (hv : s.Room v.length)
    (h : r'.On stop (s.emit v) d) : (Encoding.andThen (.ok v) r').On stop s d := by
  have hroom : ∀ w : Bytes, s.Room (v ++ w).length ↔ (s.emit v).Room w.length := fun w =>
    (OStream.room_append hs).trans (and_iff_right hv)
  rcases r' with ⟨stop', w⟩ | w
  · obtain ⟨hyes, hno⟩ := h
    exact ⟨fun hr => (hyes ((hroom w).mp hr)).behind,
      fun hr => (hno fun hw => hr ((hroom w).mpr hw)).behind⟩
  · obtain ⟨hyes, hno⟩ := h
    refine ⟨fun hr => ?_, fun hr => (hno fun hw => hr ((hroom w).mpr hw)).behind⟩
    rw [hyes ((hroom w).mp hr), OStream.emit_append]

/-- Without room for `v`, whatever comes behind does not matter. -/
theorem Encoding.On.stopped {d : Enc} (hs : s.Sound) (hv : ¬ s.Room v.length) (h : s.Stops stop d)
    (r' : Encoding) : (Encoding.andThen (.ok v) r').On stop s d := by
  have hno : ∀ w : Bytes, ¬ s.Room (v ++ w).length := fun w hr =>
    hv ((OStream.room_append hs).mp hr).1
  rcases r' with ⟨stop', w⟩ | w
  · exact ⟨fun hr => absurd hr (hno w), fun _ => h⟩
  · exact ⟨fun hr => absurd hr (hno w), fun _ => h⟩

/-- **One function after another.** -/
theorem Does.bind (hf : Does f r short) (hg : Does g r' short') :
    Does (fun s => f s >>= g) (r.andThen r') (shortThen r short short') where
  on := by
    intro s hs hreal
    have hstep := hf.on s hs hreal
    show (r.andThen r').On _ s (f s >>= g)
    rcases r with ⟨stop, v⟩ | v
    · exact ⟨fun hr => (hstep.1 hr).bind, fun hr => (hstep.2 hr).bind⟩
    · rw [shortThen]
      by_cases hv : s.Room v.length
      · rw [if_pos hv, hstep.1 hv]
        exact (hg.on (s.emit v) (hs.emit hv) hreal).behind hs hv
      · rw [if_neg hv]
        exact Encoding.On.stopped hs hv (hstep.2 hv).bind r'
  refused := by
    intro s hs hwithin hlt hr
    rcases r with ⟨stop, v⟩ | v
    · exact hf.refused s hs hwithin hlt hr
    · rw [Encoding.size_andThen] at hlt hr
      rw [shortThen]
      by_cases hv : s.Room v.length
      · rw [if_pos hv]
        have hcount : (s.emit v).bytesWritten = s.bytesWritten + v.length :=
          OStream.emit_bytesWritten (by omega)
        refine hg.refused (s.emit v) (hs.emit hv) (hwithin.emit hs hv) (by omega) fun hr' => hr ?_
        -- the rest has room behind the first part, so the whole has it
        have hrest : (s.emit v).Room (List.replicate r'.size (0 : UInt8)).length := by
          rwa [List.length_replicate]
        have hboth := (OStream.room_append hs).mpr ⟨hv, hrest⟩
        rwa [List.length_append, List.length_replicate] at hboth
      · rw [if_neg hv]
        exact hf.refused s hs hwithin (by show s.bytesWritten + v.length < _; omega) hv
  stays := by
    intro u h
    rcases r with ⟨stop, v⟩ | v
    · exact hf.stays u h
    · rcases r' with ⟨stop, w⟩ | w
      · obtain ⟨rfl, -⟩ := Prod.mk.inj (Except.error.inj h)
        exact hg.stays w rfl
      · cases h

theorem Does.congr (hf : Does f r short) (h : ∀ s, g s = f s) : Does g r short := by
  have hfg : g = f := funext h
  rwa [hfg]

theorem does_nil (short : OStream → PbStop) : Does (fun s => .ok s) (.ok []) short where
  on _ hs _ := ⟨fun _ => by rw [OStream.emit_nil hs], fun hr => absurd hs.room_zero hr⟩
  refused _ hs _ _ hr := absurd hs.room_zero hr
  stays _ h := by cases h

theorem does_stop (hstop : stop ≠ .overrun) (short : OStream → PbStop) :
    Does (fun s => .error (stop, s)) (.error (stop, [])) short where
  on _ hs _ := ⟨fun _ => .here hs stop, fun hr => absurd hs.room_zero hr⟩
  refused _ hs _ _ hr := absurd hs.room_zero hr
  stays _ h := hstop (Prod.mk.inj (Except.error.inj h)).1

theorem does_refused : Does (fun s => .error (.refused, s)) (.error (.refused, [])) noShortage :=
  does_stop PbStop.noConfusion noShortage

theorem does_nullString (short : OStream → PbStop) :
    Does (fun s => .error (.nullString, s)) (.error (.nullString, [])) short :=
  does_stop PbStop.noConfusion short

/-- The `count` bytes that `pb_write` copies. Behind the end of the source lies memory
that is never copied, since no buffer has room for so much. -/
def copied (source : Bytes) (count : ℕ) : Bytes :=
  source.take count ++ List.replicate (count - source.length) 0

theorem length_copied (source : Bytes) (count : ℕ) : (copied source count).length = count := by
  rw [copied, List.length_append, List.length_take, List.length_replicate]
  omega

theorem copied_of_le {source : Bytes} {count : ℕ} (h : count ≤ source.length) :
    copied source count = source.take count := by
  rw [copied, Nat.sub_eq_zero_of_le h, List.replicate_zero, List.append_nil]

theorem does_pbWrite {source : Bytes} {count : ℕ} (h : count ≤ source.length ∨ 2 ^ 63 ≤ count) :
    Does (fun s => pbWrite s source count) (.ok (copied source count)) (shortWrite count) where
  on := by
    intro s hs hreal
    show (s.Room _ → _) ∧ (¬ s.Room _ → s.Stops _ _)
    rw [length_copied]
    refine ⟨fun hr => ?_, fun hr => ?_⟩
    · cases hw : s.writing with
      | false =>
        have hcount := pbWrite_of_counting hw source (copied source count)
        rwa [length_copied] at hcount
      | true =>
        have hle : count ≤ source.length := by
          have hcapacity := hreal hw
          obtain ⟨-, hroom⟩ := hr hw
          omega
        rw [copied_of_le hle]
        exact pbWrite_of_room hs hw hr hle
    · rw [pbWrite_of_not_room hs hr]
      exact .here hs _
  refused := by
    intro s hs hwithin hlt hr
    simp only [Encoding.size, length_copied] at hlt hr
    rw [shortWrite, Nat.mod_eq_of_lt hlt, if_pos (hwithin.limit_lt hr)]
  stays _ h := by cases h

/-- A function that writes given bytes. -/
theorem does_bytes (w : Bytes) :
    Does (fun s => pbWrite s w w.length) (.ok w) (shortWrite w.length) := by
  have h := does_pbWrite (.inl (Nat.le_refl w.length))
  rwa [copied_of_le le_rfl, List.take_length] at h

theorem does_pbEncodeVarint (n : ℕ) : Does (fun s => pbEncodeVarint s n)
    (.ok (varintBytes (n % 2 ^ 64))) (shortWrite (varintBytes (n % 2 ^ 64)).length) := does_bytes _

theorem does_pbEncodeSvarint (i : ℤ) : Does (fun s => pbEncodeSvarint s i)
    (.ok (varintBytes (zigzag i))) (shortWrite (varintBytes (zigzag i)).length) := by
  have h := does_pbEncodeVarint (zigzag i)
  rwa [Nat.mod_eq_of_lt (zigzag_lt i)] at h

theorem does_pbEncodeFixed32 (x : BinaryFloat.Datum BinaryFloat.single) :
    Does (fun s => pbEncodeFixed32 s x) (.ok (leBytes 4 x.toNat))
      (shortWrite (leBytes 4 x.toNat).length) := by
  have h := does_bytes (leBytes 4 x.toNat)
  rwa [length_leBytes] at h ⊢

theorem does_pbEncodeFixed64 (x : BinaryFloat.Datum BinaryFloat.double) :
    Does (fun s => pbEncodeFixed64 s x) (.ok (leBytes 8 x.toNat))
      (shortWrite (leBytes 8 x.toNat).length) := by
  have h := does_bytes (leBytes 8 x.toNat)
  rwa [length_leBytes] at h ⊢

/-- An `int` length is no longer than the string, or negative. -/
theorem stringLength_le (n : ℕ) : stringLength n ≤ n ∨ 2 ^ 63 ≤ stringLength n := by
  rw [stringLength, asUInt64, Int.bmod_def]
  split <;> omega

/-- Why a string of the length `size` has no room. -/
def shortString (size : ℕ) : OStream → PbStop :=
  let length := varintBytes (size % 2 ^ 64)
  shortThen (.ok length) (shortWrite length.length) (shortWrite size)

theorem does_pbEncodeString (text : Bytes) :
    Does (fun s => pbEncodeString s text (stringLength text.length))
      (.ok (varintBytes (stringLength text.length % 2 ^ 64) ++
        copied text (stringLength text.length))) (shortString (stringLength text.length)) :=
  (does_pbEncodeVarint _).bind (does_pbWrite (stringLength_le text.length))

/-! ## Submessages -/

/-- What the substream has stored when it stops is what the stream has. -/
theorem OStream.Stops.merge (hw : s.writing = true) {length : ℕ} {d : Enc}
    (h : (s.sub length).Stops stop d) : ∃ v : Bytes, s.out.length + v.length ≤ s.capacity ∧
      ∃ sub, d = .error (stop, sub) ∧ mergeSub s sub = s.emit v := by
  obtain ⟨v, hv, rfl⟩ := h
  exact ⟨v, hv rfl, _, rfl, mergeSub_emit hw length v⟩

theorem does_submessageBody {enc : OStream → Enc} (h : Does enc (.ok w) short) :
    Does (submessageBody enc (w.length % 2 ^ 64)) (.ok w)
      (shortBody (w.length % 2 ^ 64) short) where
  on := by
    intro s hs hreal
    show (s.Room _ → _) ∧ (¬ s.Room _ → s.Stops _ _)
    cases hw : s.writing with
    | false =>
      refine ⟨fun _ => ?_, fun hr => absurd (fun hs => by simp [hw] at hs) hr⟩
      simp [submessageBody, pbWrite, OStream.emit, hw]
    | true =>
      obtain ⟨hok, hno⟩ := h.on _ (hs.sub hw (w.length % 2 ^ 64)) fun _ => hreal hw
      refine ⟨fun hr => submessageBody_of_ok hs hw hr (hok (hs.room_sub hw hr)), fun hr => ?_⟩
      rw [submessageBody_storing hw, shortBody]
      split
      · exact .here hs .refused
      · next hlimit =>
        obtain ⟨v, hv, sub, hsub, hmerge⟩ :=
          (hno fun hsub => hr (hs.room_of_sub hw hlimit hsub)).merge hw
        exact ⟨v, fun _ => hv, by rw [hsub]; exact congrArg _ (congrArg _ hmerge)⟩
  refused := by
    intro s hs hwithin hlt hr
    rw [Encoding.size] at hlt hr
    have hlength : w.length % 2 ^ 64 = w.length := Nat.mod_eq_of_lt (by omega)
    rw [shortBody, hlength, Nat.mod_eq_of_lt hlt, if_pos (hwithin.limit_lt hr)]
  stays _ h := by cases h

/-- `pb_encode_submessage`: the length in front is that of the bytes behind it. -/
theorem Does.submessage {enc : OStream → Enc} (h : Does enc r short) :
    Does (fun s => pbEncodeSubmessage s enc) r.prefixed (shortPrefixed r short) := by
  have hcount := h.on pbSizingStream .sizing fun hw => Bool.noConfusion hw
  rcases r with ⟨stop, v⟩ | w
  · -- the counting run stops
    obtain ⟨v', -, hstop⟩ := hcount.1 (room_sizing _)
    have hne : stop ≠ .overrun := by
      rintro rfl
      exact h.stays v rfl
    refine (does_stop hne _).congr fun s => ?_
    simp only [pbEncodeSubmessage, hstop]
    rfl
  · have hsize : enc pbSizingStream = .ok (pbSizingStream.emit w) := hcount.1 (room_sizing _)
    have hwritten : (pbSizingStream.emit w).bytesWritten = w.length % 2 ^ 64 :=
      congrArg (· % 2 ^ 64) (Nat.zero_add _)
    have hlen := does_pbEncodeVarint (w.length % 2 ^ 64)
    rw [Nat.mod_mod] at hlen
    refine (hlen.bind (does_submessageBody h)).congr fun s => ?_
    simp only [pbEncodeSubmessage, hsize, hwritten]
    rfl

end Outcomes

/-! ## The encoding of a message -/

/-- A primitive value. -/
def encodingScalar (t : PbType) (v : Json) : Encoding :=
  match t with
  | .uInt32 => .ok (varintBytes (asUInt64 (cvtInt64 (jsonNumberValue (some v)))))
  | .int32 => .ok (varintBytes (zigzag (cvtInt64 (jsonNumberValue (some v)))))
  | .sInt32 => .ok (varintBytes (zigzag (cvtInt64 (jsonNumberValue (some v)))))
  | .float => .ok (leBytes 4 (BinaryFloat.narrow (jsonNumberValue (some v))).toNat)
  | .double => .ok (leBytes 8 (jsonNumberValue (some v)).toNat)
  | .string =>
    match jsonStringValue (some v) with
    | none => .error (.nullString, [])
    | some str =>
      .ok (varintBytes (stringLength (utf8Bytes str).length % 2 ^ 64) ++
        copied (utf8Bytes str) (stringLength (utf8Bytes str).length))

/-- The tag of a field. -/
def encodingTag (proto : Json) : Encoding :=
  match fieldType proto with
  | none => .error (.nullString, [])
  | some _ => .ok (wireTag proto)

/-- One value, with `sub` its encoding as a message of a level. -/
def encodingValue (gprotos protos proto v : Json) (sub : Json → Encoding) : Encoding :=
  match fieldType proto with
  | none => .error (.nullString, [])
  | some type =>
    match pbGetType type with
    | some t => encodingScalar t v
    | none =>
      match jsonObjectGet (some protos) "__messages" with
      | none => .ok []
      | some messages =>
        match resolveMessage gprotos messages type with
        | none => .error (.refused, [])
        | some level => (sub level).prefixed

/-- What stands in front of the elements of an array. -/
def encodingArrayHead (proto : Json) (packed : Bool) (len : ℕ) : Encoding :=
  if packed then (encodingTag proto).andThen (.ok (varintBytes (len % 2 ^ 64))) else .ok []

mutual

/-- **The encoding** of a message at the level `protos`. -/
def encoding (gprotos : Json) : Json → Json → Encoding
  | .obj kvs, protos => encodingFields gprotos kvs protos
  | _, _ => .ok []
termination_by structural x => x

/-- The encoding of some members. -/
def encodingFields (gprotos : Json) : List (String × Json) → Json → Encoding
  | [], _ => .ok []
  | (key, v) :: kvs, protos =>
    Encoding.andThen
      (match jsonObjectGet (some protos) key with
        | none => .error (.refused, [])
        | some proto =>
          match fieldOption proto with
          | none => .error (.nullString, [])
          | some option =>
            if option = "required" ∨ option = "optional" then
              (encodingTag proto).andThen
                (encodingValue gprotos protos proto v fun level => encoding gprotos v level)
            else if option = "repeated" then encodingArray gprotos v protos proto
            else .ok [])
      (encodingFields gprotos kvs protos)
termination_by structural x => x

/-- The encoding of a repeated field; a value that is no array is left out. -/
def encodingArray (gprotos : Json) : Json → Json → Json → Encoding
  | .arr xs, protos, proto =>
    match fieldType proto with
    | none => .error (.nullString, [])
    | some type =>
      (encodingArrayHead proto (pbIsPacked type) xs.length).andThen
        (encodingElems gprotos xs protos proto (pbIsPacked type))
  | _, _, _ => .ok []
termination_by structural x => x

/-- The encoding of the elements; unpacked ones have a tag each. -/
def encodingElems (gprotos : Json) : List Json → Json → Json → Bool → Encoding
  | [], _, _, _ => .ok []
  | x :: xs, protos, proto, packed =>
    (if packed then .ok [] else encodingTag proto).andThen
      (Encoding.andThen (encodingValue gprotos protos proto x fun level => encoding gprotos x level)
        (encodingElems gprotos xs protos proto packed))
termination_by structural x => x

end

/-! ## The shortage of a message -/

/-- Why a primitive value has no room. -/
def shortageScalar (t : PbType) (v : Json) : OStream → PbStop :=
  match t, jsonStringValue (some v) with
  | .string, none => noShortage
  | .string, some str => shortString (stringLength (utf8Bytes str).length)
  | t, _ => shortWrite (encodingScalar t v).size

/-- Why a tag has no room. -/
def shortageTag (proto : Json) : OStream → PbStop := shortWrite (encodingTag proto).size

/-- Why a value has no room, with `sub` and `short` its encoding and its shortage as a
message of a level. -/
def shortageValue (gprotos protos proto v : Json) (sub : Json → Encoding)
    (short : Json → OStream → PbStop) : OStream → PbStop :=
  match fieldType proto with
  | none => noShortage
  | some type =>
    match pbGetType type with
    | some t => shortageScalar t v
    | none =>
      match jsonObjectGet (some protos) "__messages" with
      | none => noShortage
      | some messages =>
        match resolveMessage gprotos messages type with
        | none => noShortage
        | some level => shortPrefixed (sub level) (short level)

/-- Why what stands in front of the elements has no room. -/
def shortageArrayHead (proto : Json) (packed : Bool) (len : ℕ) : OStream → PbStop :=
  if packed then
    shortThen (encodingTag proto) (shortageTag proto)
      (shortWrite (varintBytes (len % 2 ^ 64)).length)
  else noShortage

mutual

/-- **The shortage** of a message at the level `protos`: why the encoder stops on a
stream that has no room for the encoding. -/
def shortage (gprotos : Json) : Json → Json → OStream → PbStop
  | .obj kvs, protos => shortageFields gprotos kvs protos
  | _, _ => noShortage
termination_by structural x => x

/-- The shortage of some members: that of the first one without room. -/
def shortageFields (gprotos : Json) : List (String × Json) → Json → OStream → PbStop
  | [], _ => noShortage
  | (key, v) :: kvs, protos =>
    shortThen (encodingFields gprotos [(key, v)] protos)
      (match jsonObjectGet (some protos) key with
        | none => noShortage
        | some proto =>
          match fieldOption proto with
          | none => noShortage
          | some option =>
            if option = "required" ∨ option = "optional" then
              shortThen (encodingTag proto) (shortageTag proto)
                (shortageValue gprotos protos proto v (fun level => encoding gprotos v level)
                  fun level => shortage gprotos v level)
            else if option = "repeated" then shortageArray gprotos v protos proto
            else noShortage)
      (shortageFields gprotos kvs protos)
termination_by structural x => x

/-- The shortage of a repeated field. -/
def shortageArray (gprotos : Json) : Json → Json → Json → OStream → PbStop
  | .arr xs, protos, proto =>
    match fieldType proto with
    | none => noShortage
    | some type =>
      shortThen (encodingArrayHead proto (pbIsPacked type) xs.length)
        (shortageArrayHead proto (pbIsPacked type) xs.length)
        (shortageElems gprotos xs protos proto (pbIsPacked type))
  | _, _, _ => noShortage
termination_by structural x => x

/-- The shortage of the elements. -/
def shortageElems (gprotos : Json) : List Json → Json → Json → Bool → OStream → PbStop
  | [], _, _, _ => noShortage
  | x :: xs, protos, proto, packed =>
    shortThen (if packed then .ok [] else encodingTag proto) (shortageTag proto)
      (shortThen (encodingValue gprotos protos proto x fun level => encoding gprotos x level)
        (shortageValue gprotos protos proto x (fun level => encoding gprotos x level)
          fun level => shortage gprotos x level)
        (shortageElems gprotos xs protos proto packed))
termination_by structural x => x

end

/-! ## The encoder has this outcome -/

section Encoder

variable {gprotos protos proto v : Json}

theorem does_pbEncodeTagForField (proto : Json) :
    Does (fun s => pbEncodeTagForField s proto) (encodingTag proto) (shortageTag proto) := by
  rw [shortageTag, encodingTag]
  rcases htype : fieldType proto with _ | type
  · refine (does_nullString _).congr fun s => ?_
    have htype' : jsonStringValue (jsonObjectGet (some proto) "type") = none := htype
    simp only [pbEncodeTagForField, htype']
  · have htype' : jsonStringValue (jsonObjectGet (some proto) "type") = some type := htype
    refine (does_pbEncodeVarint _).congr fun s => ?_
    simp only [pbEncodeTagForField, htype', htype, Option.getD_some]

theorem does_pbEncodeProto {enc : Json → OStream → Enc} {sub : Json → Encoding}
    {short : Json → OStream → PbStop} (h : ∀ level, Does (enc level) (sub level) (short level)) :
    Does (fun s => pbEncodeProto gprotos protos proto v enc s)
      (encodingValue gprotos protos proto v sub)
      (shortageValue gprotos protos proto v sub short) := by
  rw [encodingValue, shortageValue]
  rcases htype : fieldType proto with _ | type
  · refine (does_nullString _).congr fun s => ?_
    have htype' : jsonStringValue (jsonObjectGet (some proto) "type") = none := htype
    simp only [pbEncodeProto, htype']
  · have htype' : jsonStringValue (jsonObjectGet (some proto) "type") = some type := htype
    simp only [pbEncodeProto, htype']
    rcases ht : pbGetType type with _ | t
    · dsimp only
      rcases hmsgs : jsonObjectGet (some protos) "__messages" with _ | messages
      · exact does_nil _
      · dsimp only
        rcases hres : resolveMessage gprotos messages type with _ | level
        · exact does_refused
        · exact (h level).submessage
    · cases t with
      | uInt32 =>
        have hvarint := does_pbEncodeVarint (asUInt64 (cvtInt64 (jsonNumberValue (some v))))
        rwa [Nat.mod_eq_of_lt (asUInt64_lt _)] at hvarint
      | int32 => exact does_pbEncodeSvarint _
      | sInt32 => exact does_pbEncodeSvarint _
      | float => exact does_pbEncodeFixed32 _
      | double => exact does_pbEncodeFixed64 _
      | string =>
        simp only [encodingScalar, shortageScalar]
        rcases hstr : jsonStringValue (some v) with _ | str
        · exact does_nullString _
        · exact does_pbEncodeString (utf8Bytes str)

theorem does_pbEncodeArrayHead (proto : Json) (packed : Bool) (len : ℕ) :
    Does (fun s => pbEncodeArrayHead proto packed len s) (encodingArrayHead proto packed len)
      (shortageArrayHead proto packed len) := by
  cases packed with
  | false => exact does_nil _
  | true => exact (does_pbEncodeTagForField proto).bind (does_pbEncodeVarint len)

mutual

/-- **The encoder does what the encoding says**, on every stream. -/
theorem does_pbEncode (gprotos : Json) : ∀ (msg protos : Json),
    Does (fun s => pbEncode gprotos msg protos s) (encoding gprotos msg protos)
      (shortage gprotos msg protos)
  | .obj kvs, protos => does_pbEncodeFields gprotos kvs protos
  | .null, _ => does_nil _
  | .bool _, _ => does_nil _
  | .int _, _ => does_nil _
  | .real _, _ => does_nil _
  | .str _, _ => does_nil _
  | .arr _, _ => does_nil _
termination_by structural x => x

theorem does_pbEncodeFields (gprotos : Json) : ∀ (kvs : List (String × Json)) (protos : Json),
    Does (fun s => pbEncodeFields gprotos kvs protos s) (encodingFields gprotos kvs protos)
      (shortageFields gprotos kvs protos)
  | [], _ => does_nil _
  | (key, v) :: kvs, protos => by
    have hrest := does_pbEncodeFields gprotos kvs protos
    have hsub : ∀ level, Does (fun s => pbEncode gprotos v level s) (encoding gprotos v level)
        (shortage gprotos v level) := fun level => does_pbEncode gprotos v level
    have harr : ∀ proto, Does (fun s => pbEncodeArray gprotos v protos proto s)
        (encodingArray gprotos v protos proto) (shortageArray gprotos v protos proto) :=
      fun proto => does_pbEncodeArray gprotos v protos proto
    simp only [pbEncodeFields, shortageFields, encodingFields, Encoding.andThen_nil]
    -- one field, and then the rest
    refine Does.bind ?_ hrest
    rcases hkey : jsonObjectGet (some protos) key with _ | proto
    · exact does_refused
    · have hoption : jsonStringValue (jsonObjectGet (some proto) "option") = fieldOption proto := rfl
      dsimp only
      rw [hoption]
      rcases fieldOption proto with _ | option
      · exact does_nullString _
      · dsimp only
        by_cases hsingle : option = "required" ∨ option = "optional"
        · rw [if_pos hsingle]
          simp only [if_pos hsingle]
          exact (does_pbEncodeTagForField proto).bind (does_pbEncodeProto hsub)
        · rw [if_neg hsingle]
          simp only [if_neg hsingle]
          by_cases hrepeated : option = "repeated"
          · rw [if_pos hrepeated]
            simp only [if_pos hrepeated]
            exact harr proto
          · rw [if_neg hrepeated]
            simp only [if_neg hrepeated]
            exact does_nil _
termination_by structural x => x

theorem does_pbEncodeArray (gprotos : Json) : ∀ (v protos proto : Json),
    Does (fun s => pbEncodeArray gprotos v protos proto s) (encodingArray gprotos v protos proto)
      (shortageArray gprotos v protos proto)
  | .arr xs, protos, proto => by
    have helems := does_pbEncodeElems gprotos xs protos proto
    have htype : jsonStringValue (jsonObjectGet (some proto) "type") = fieldType proto := rfl
    simp only [pbEncodeArray, encodingArray, shortageArray]
    rw [htype]
    rcases fieldType proto with _ | type
    · exact does_nullString _
    · exact (does_pbEncodeArrayHead proto (pbIsPacked type) xs.length).bind (helems _)
  | .null, _, _ => does_nil _
  | .bool _, _, _ => does_nil _
  | .int _, _, _ => does_nil _
  | .real _, _, _ => does_nil _
  | .str _, _, _ => does_nil _
  | .obj _, _, _ => does_nil _
termination_by structural x => x

theorem does_pbEncodeElems (gprotos : Json) : ∀ (xs : List Json) (protos proto : Json)
    (packed : Bool), Does (fun s => pbEncodeElems gprotos xs protos proto packed s)
      (encodingElems gprotos xs protos proto packed) (shortageElems gprotos xs protos proto packed)
  | [], _, _, _ => does_nil _
  | x :: xs, protos, proto, packed => by
    have hrest := does_pbEncodeElems gprotos xs protos proto packed
    have hsub : ∀ level, Does (fun s => pbEncode gprotos x level s) (encoding gprotos x level)
        (shortage gprotos x level) := fun level => does_pbEncode gprotos x level
    simp only [pbEncodeElems, encodingElems, shortageElems]
    refine Does.bind ?_ ((does_pbEncodeProto hsub).bind hrest)
    cases packed with
    | true => exact does_nil _
    | false => exact does_pbEncodeTagForField proto
termination_by structural x => x

end

/-- The encoder on a buffer. -/
theorem encoding_on_buffer (gprotos protos msg : Json) {len : ℕ} (hlen : len < 2 ^ 63) :
    (encoding gprotos msg protos).On (shortage gprotos msg protos (pbOstreamFromBuffer len))
      (pbOstreamFromBuffer len) (pbEncode gprotos msg protos (pbOstreamFromBuffer len)) :=
  (does_pbEncode gprotos msg protos).on _ (.fromBuffer (by omega)) fun _ => hlen

/-- The counting run. -/
theorem encoding_on_sizing (gprotos protos msg : Json) :
    (encoding gprotos msg protos).On (shortage gprotos msg protos pbSizingStream) pbSizingStream
      (pbEncode gprotos msg protos pbSizingStream) :=
  (does_pbEncode gprotos msg protos).on _ .sizing fun hw => Bool.noConfusion hw

/-- Where no sum of sizes wraps around, a short buffer is refused. -/
theorem shortage_on_buffer {msg : Json} {len : ℕ} (hlen : len < 2 ^ 63)
    (hsize : (encoding gprotos msg protos).size < 2 ^ 64)
    (hshort : len < (encoding gprotos msg protos).size) :
    shortage gprotos msg protos (pbOstreamFromBuffer len) = .refused := by
  have hwithin : (pbOstreamFromBuffer len).Within := fun _ => (Nat.zero_add len).le
  refine (does_pbEncode gprotos msg protos).refused _ (.fromBuffer (by omega)) hwithin ?_
    fun hr => Nat.not_le.mpr hshort (room_fromBuffer.mp hr)
  rwa [pbOstreamFromBuffer, Nat.zero_add]

/-- `pc_pb_encode` succeeds when the encoding fits. -/
theorem pcPbEncode_of_encoding {msg : Json} {w : Bytes} {len : ℕ}
    (h : encoding gprotos msg protos = .ok w) (hlen : len < 2 ^ 63) (hle : w.length ≤ len) :
    pcPbEncode len gprotos protos msg = .ok w := by
  have hrun := encoding_on_buffer gprotos protos msg hlen
  rw [h] at hrun
  rw [pcPbEncode, hrun.1 (room_fromBuffer.mpr hle)]
  exact congrArg _ (take_emit_fromBuffer (by omega))

/-- What the encoder stopped at, when it stopped. -/
theorem pcPbEncode_of_stops {msg : Json} {stop : PbStop} {len : ℕ}
    (h : (pbOstreamFromBuffer len).Stops stop
      (pbEncode gprotos msg protos (pbOstreamFromBuffer len))) :
    ∃ s, pcPbEncode len gprotos protos msg = .error (stop, s) := by
  obtain ⟨v, -, hstop⟩ := h
  exact ⟨_, by rw [pcPbEncode, hstop]⟩

/-- A buffer that ends in front of the last byte, or of what stops the encoder. -/
theorem pcPbEncode_of_short {msg : Json} {len : ℕ} (hlen : len < 2 ^ 63)
    (h : len < (encoding gprotos msg protos).size) : ∃ s, pcPbEncode len gprotos protos msg =
      .error (shortage gprotos msg protos (pbOstreamFromBuffer len), s) := by
  have hrun := encoding_on_buffer gprotos protos msg hlen
  have hno : ¬ (pbOstreamFromBuffer len).Room (encoding gprotos msg protos).size :=
    fun hr => Nat.not_le.mpr h (room_fromBuffer.mp hr)
  rcases henc : encoding gprotos msg protos with ⟨stop, v⟩ | w
  · rw [henc] at hrun hno
    exact pcPbEncode_of_stops (hrun.2 hno)
  · rw [henc] at hrun hno
    exact pcPbEncode_of_stops (hrun.2 hno)

/-- A buffer that is large enough for what is in front of the point where the encoder stops. -/
theorem pcPbEncode_of_stop {msg : Json} {stop : PbStop} {v : Bytes} {len : ℕ} (hlen : len < 2 ^ 63)
    (h : encoding gprotos msg protos = .error (stop, v)) (hle : v.length ≤ len) :
    ∃ s, pcPbEncode len gprotos protos msg = .error (stop, s) := by
  have hrun := encoding_on_buffer gprotos protos msg hlen
  rw [h] at hrun
  exact pcPbEncode_of_stops (hrun.1 (room_fromBuffer.mpr hle))

/-- **When `pc_pb_encode` succeeds**, and with what. -/
theorem pcPbEncode_eq_ok {msg : Json} {w : Bytes} {len : ℕ} (hlen : len < 2 ^ 63) :
    pcPbEncode len gprotos protos msg = .ok w ↔
      encoding gprotos msg protos = .ok w ∧ w.length ≤ len := by
  constructor
  · intro h
    obtain hshort | hroom := Nat.lt_or_ge len (encoding gprotos msg protos).size
    · obtain ⟨s, hs⟩ := pcPbEncode_of_short hlen hshort
      rw [hs] at h
      cases h
    · rcases henc : encoding gprotos msg protos with ⟨stop, v⟩ | w'
      · rw [henc] at hroom
        obtain ⟨s, hs⟩ := pcPbEncode_of_stop hlen henc hroom
        rw [hs] at h
        cases h
      · rw [henc] at hroom
        rw [pcPbEncode_of_encoding henc hlen hroom] at h
        obtain rfl := Except.ok.inj h
        exact ⟨rfl, hroom⟩
  · rintro ⟨henc, hle⟩
    exact pcPbEncode_of_encoding henc hlen hle

/-- What a counting run has counted. -/
theorem bytesWritten_sizing (w : Bytes) : (pbSizingStream.emit w).bytesWritten = w.length % 2 ^ 64 :=
  congrArg (· % 2 ^ 64) (Nat.zero_add _)

/-- A counting run that succeeds has counted the encoding. -/
theorem encoding_of_sizing {msg : Json} {sub : OStream}
    (h : pbEncode gprotos msg protos pbSizingStream = .ok sub) :
    ∃ w, encoding gprotos msg protos = .ok w ∧ w.length % 2 ^ 64 = sub.bytesWritten := by
  have hrun := encoding_on_sizing gprotos protos msg
  rcases henc : encoding gprotos msg protos with ⟨stop, v⟩ | w
  · rw [henc] at hrun
    obtain ⟨v', -, hstop⟩ := hrun.1 (room_sizing _)
    rw [h] at hstop
    cases hstop
  · rw [henc] at hrun
    obtain rfl := Except.ok.inj (h.symm.trans (hrun.1 (room_sizing _)))
    exact ⟨w, rfl, (bytesWritten_sizing w).symm⟩

theorem sizing_of_encoding {msg : Json} {w : Bytes} (h : encoding gprotos msg protos = .ok w) :
    ∃ sub, pbEncode gprotos msg protos pbSizingStream = .ok sub ∧
      sub.bytesWritten = w.length % 2 ^ 64 := by
  have hrun := encoding_on_sizing gprotos protos msg
  rw [h] at hrun
  exact ⟨_, hrun.1 (room_sizing _), bytesWritten_sizing w⟩

/-- Whether it succeeds or not, the encoder stores nothing behind its buffer. -/
theorem out_le_of_run {msg : Json} {len : ℕ} (hlen : len < 2 ^ 63) {s : OStream}
    (h : pbEncode gprotos msg protos (pbOstreamFromBuffer len) = .ok s ∨
      ∃ stop, pbEncode gprotos msg protos (pbOstreamFromBuffer len) = .error (stop, s)) :
    s.out.length ≤ len := by
  have hout : ∀ {v : Bytes}, 0 + v.length ≤ len → s = (pbOstreamFromBuffer len).emit v →
      s.out.length ≤ len := by
    rintro v hv rfl
    rw [OStream.emit_out rfl, pbOstreamFromBuffer, List.nil_append]
    omega
  have hstops : ∀ {stop : PbStop}, (pbOstreamFromBuffer len).Stops stop
      (pbEncode gprotos msg protos (pbOstreamFromBuffer len)) → s.out.length ≤ len := by
    rintro stop ⟨v, hv, hstop⟩
    rcases h with h | ⟨stop', h⟩
    · rw [h] at hstop
      cases hstop
    · rw [h] at hstop
      exact hout (hv rfl) (Prod.mk.inj (Except.error.inj hstop)).2
  -- whether it ends or stops, what it has written is in the buffer
  have hrun := encoding_on_buffer gprotos protos msg hlen
  generalize encoding gprotos msg protos = r at hrun
  obtain ⟨stop, v⟩ | w := r
  · by_cases hv : (pbOstreamFromBuffer len).Room v.length
    · exact hstops (hrun.1 hv)
    · exact hstops (hrun.2 hv)
  · by_cases hw : (pbOstreamFromBuffer len).Room w.length
    · rcases h with h | ⟨stop', h⟩
      · exact hout (hw rfl).2 (Except.ok.inj (h.symm.trans (hrun.1 hw)))
      · rw [hrun.1 hw] at h
        cases h
    · exact hstops (hrun.2 hw)

/-- A submessage that was stored: its length in front is that of its body, and the body
is the encoding of the value by itself. -/
theorem submessage_of_run {v level : Json} {s s' : OStream} (hs : s.Sound)
    (hw : s.writing = true) (hreal : s.capacity < 2 ^ 63)
    (h : pbEncodeSubmessage s (fun s => pbEncode gprotos v level s) = .ok s') :
    ∃ body, pcPbEncode body.length gprotos level v = .ok body ∧
      s' = s.emit (varintBytes body.length ++ body) := by
  have hrun := (does_pbEncode gprotos v level).submessage.on s hs fun _ => hreal
  simp only [h] at hrun
  rcases henc : encoding gprotos v level with ⟨stop, w⟩ | w
  · rw [henc] at hrun
    obtain ⟨_, _, hstop⟩ := hrun.1 hs.room_zero
    cases hstop
  · rw [henc] at hrun
    by_cases hr : s.Room (wirePrefixed w).length
    · have hsmall : w.length < 2 ^ 63 := by
        obtain ⟨-, hroom⟩ := hr hw
        rw [wirePrefixed, List.length_append] at hroom
        omega
      refine ⟨w, (pcPbEncode_eq_ok hsmall).mpr ⟨henc, le_rfl⟩, ?_⟩
      rw [Except.ok.inj (hrun.1 hr), wirePrefixed, Nat.mod_eq_of_lt (by omega)]
    · obtain ⟨_, _, hstop⟩ := hrun.2 hr
      cases hstop

/-- **The counting run and the storing run agree.** For every schema and message for
which the counting run meets no `NULL` string and whose size does not overflow: the
message is encoded into a buffer exactly when the counting run succeeds with a size that
the buffer has, and is refused otherwise; these many bytes are written, the same for
every buffer. No run stores behind its buffer, and in front of every submessage stands
the number of bytes of its body. -/
theorem pbEncode_runs_agree {gprotos protos msg : Json}
    (hnull : ∀ e, pbEncode gprotos msg protos pbSizingStream ≠ .error (.nullString, e))
    (hsize : (encoding gprotos msg protos).size < 2 ^ 64) :
    (∀ len < 2 ^ 63, ((∃ w, pcPbEncode len gprotos protos msg = .ok w) ↔
        ∃ sub, pbEncode gprotos msg protos pbSizingStream = .ok sub ∧ sub.bytesWritten ≤ len) ∧
      ((¬ ∃ w, pcPbEncode len gprotos protos msg = .ok w) →
        ∃ s, pcPbEncode len gprotos protos msg = .error (.refused, s))) ∧
    (∀ sub, pbEncode gprotos msg protos pbSizingStream = .ok sub →
      ∃ w : Bytes, w.length = sub.bytesWritten ∧
        ∀ len < 2 ^ 63, sub.bytesWritten ≤ len → pcPbEncode len gprotos protos msg = .ok w) ∧
    (∀ len < 2 ^ 63, ∀ s, (pbEncode gprotos msg protos (pbOstreamFromBuffer len) = .ok s ∨
        ∃ stop, pbEncode gprotos msg protos (pbOstreamFromBuffer len) = .error (stop, s)) →
      s.out.length ≤ len) ∧
    (∀ v level s s', s.Sound → s.writing = true → s.capacity < 2 ^ 63 →
      pbEncodeSubmessage s (fun s => pbEncode gprotos v level s) = .ok s' →
      ∃ body, pcPbEncode body.length gprotos level v = .ok body ∧
        s' = s.emit (varintBytes body.length ++ body)) := by
  have hcounted : ∀ {w : Bytes}, encoding gprotos msg protos = .ok w →
      w.length % 2 ^ 64 = w.length := by
    intro w henc
    rw [henc] at hsize
    exact Nat.mod_eq_of_lt hsize
  refine ⟨fun len hlen => ⟨⟨?_, ?_⟩, fun hno => ?_⟩, fun sub hsub => ?_,
    fun len hlen s => out_le_of_run hlen, fun v level s s' => submessage_of_run⟩
  · rintro ⟨w, hw⟩
    obtain ⟨henc, hle⟩ := (pcPbEncode_eq_ok hlen).mp hw
    obtain ⟨sub, hsub, hcount⟩ := sizing_of_encoding henc
    exact ⟨sub, hsub, by rw [hcount, hcounted henc]; exact hle⟩
  · rintro ⟨sub, hsub, hle⟩
    obtain ⟨w, henc, hcount⟩ := encoding_of_sizing hsub
    rw [hcounted henc] at hcount
    exact ⟨w, pcPbEncode_of_encoding henc hlen (hcount ▸ hle)⟩
  · obtain hshort | hroom := Nat.lt_or_ge len (encoding gprotos msg protos).size
    · have hrefused := pcPbEncode_of_short hlen hshort
      rwa [shortage_on_buffer hlen hsize hshort] at hrefused
    · rcases henc : encoding gprotos msg protos with ⟨stop, v⟩ | w
      · rw [henc] at hroom
        cases stop with
        | refused => exact pcPbEncode_of_stop hlen henc hroom
        | nullString =>
          -- the counting run stops for the same reason
          have hcount := encoding_on_sizing gprotos protos msg
          rw [henc] at hcount
          obtain ⟨_, -, hstop⟩ := hcount.1 (room_sizing _)
          exact absurd hstop (hnull _)
        | overrun => exact absurd henc ((does_pbEncode gprotos msg protos).stays v)
      · rw [henc] at hroom
        exact absurd ⟨w, pcPbEncode_of_encoding henc hlen hroom⟩ hno
  · obtain ⟨w, henc, hcount⟩ := encoding_of_sizing hsub
    rw [hcounted henc] at hcount
    exact ⟨w, hcount, fun len hlen hle => pcPbEncode_of_encoding henc hlen (hcount ▸ hle)⟩

end Encoder

/-- A list of numbers behind a tag, in a message in a message. -/
def nestedLevel : Json :=
  .obj [("__messages", .obj [("T", .obj [("__messages", .obj []),
      ("ns", .obj [("option", .str "repeated"), ("type", .str "uInt32"), ("tag", .int 2)])])]),
    ("t", .obj [("option", .str "required"), ("type", .str "T"), ("tag", .int 1)])]

/-- A message of it. -/
def nestedMsg : Json := .obj [("t", .obj [("ns", .arr [.int 1, .int 300])])]

/-- Seven bytes: five are not enough, ten are more than needed. -/
theorem pbEncode_runs_agree_nested :
    (¬ ∃ w, pcPbEncode 5 (.obj []) nestedLevel nestedMsg = .ok w) ∧
      ∃ w, w.length = 7 ∧ pcPbEncode 10 (.obj []) nestedLevel nestedMsg = .ok w := by
  have hsizing : pbEncode (.obj []) nestedMsg nestedLevel pbSizingStream =
      .ok ⟨false, [], 0, 0, 7⟩ := by
    decide +kernel
  have hnull : ∀ e, pbEncode (.obj []) nestedMsg nestedLevel pbSizingStream ≠
      .error (.nullString, e) := by
    intro e he
    rw [hsizing] at he
    cases he
  obtain ⟨hiff, hbytes, -, -⟩ := pbEncode_runs_agree hnull (by decide +kernel)
  refine ⟨fun h => ?_, ?_⟩
  · obtain ⟨sub, hsub, hle⟩ := (hiff 5 (by decide)).1.mp h
    obtain rfl := Except.ok.inj (hsizing.symm.trans hsub)
    exact absurd hle (by decide)
  · obtain ⟨w, hw, hall⟩ := hbytes _ hsizing
    exact ⟨w, hw, hall 10 (by decide) (by decide)⟩

end Libpomelo
