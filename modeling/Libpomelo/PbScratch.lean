import Libpomelo.BodyEncoding
import Libpomelo.JsonDump
import Libpomelo.PbRoundtrip

/-!
# The size of the scratch buffer

`pc__pb_encode` does not count the bytes it is going to write. It prints the message and
takes `PC_PB_EVAL_FACTOR` times the length of the text, which is a guess: nearly always
the text of a piece is more than half as long as its bytes, but not always.

* A double takes eight bytes. Printed as an integer, which `json_number_value` reads as
  well, it can have one character.
* A negative integer in a `uInt32` field takes ten bytes, and `-1` has two characters.
* A tag takes up to five bytes, whatever the length of the name.

`spare` adds up, over the pieces of a message, what twice the text leaves; the buffer is
large enough exactly if the sum is not negative.
-/

namespace Libpomelo

/-! ## Valid messages -/

/-- The values of a primitive type, with integers for the two types of reals as well. -/
def ValidScalar (t : PbType) (v : Json) : Prop :=
  ConformsScalar t v ∨ (t = .float ∨ t = .double) ∧ ∃ i : ℤ, v = .int i

/-- A value of the type of a field, with `sub` the messages of a level. -/
def ValidValue (gprotos protos proto v : Json) (sub : Json → Prop) : Prop :=
  ∃ type, fieldType proto = some type ∧
    ((∃ t, pbGetType type = some t ∧ ValidScalar t v) ∨
      pbGetType type = none ∧ ∃ level, resolveType gprotos protos type = some level ∧ sub level)

mutual

/-- A message of the level `protos`. -/
def ValidMsg (gprotos : Json) : Json → Json → Prop
  | .obj kvs, protos => (kvs.map Prod.fst).Nodup ∧ ValidMembers gprotos kvs protos
  | _, _ => False
termination_by structural x => x

/-- Every member is a field of the level. -/
def ValidMembers (gprotos : Json) : List (String × Json) → Json → Prop
  | [], _ => True
  | (key, v) :: kvs, protos =>
    (∃ proto, IsField protos key proto ∧
      if fieldOption proto = some "repeated" then ValidArray gprotos v protos proto
      else ValidValue gprotos protos proto v fun level => ValidMsg gprotos v level) ∧
      ValidMembers gprotos kvs protos
termination_by structural x => x

/-- The value of a repeated field. -/
def ValidArray (gprotos : Json) : Json → Json → Json → Prop
  | .arr xs, protos, proto => ValidElems gprotos xs protos proto
  | _, _, _ => False
termination_by structural x => x

/-- Its elements. -/
def ValidElems (gprotos : Json) : List Json → Json → Json → Prop
  | [], _, _ => True
  | x :: xs, protos, proto =>
    (ValidValue gprotos protos proto x fun level => ValidMsg gprotos x level) ∧
      ValidElems gprotos xs protos proto
termination_by structural x => x

end

/-! What conforms is valid. -/

mutual

theorem ConformsMsg.valid {gprotos : Json} : ∀ {msg protos : Json},
    ConformsMsg gprotos protos msg → ValidMsg gprotos msg protos
  | _, _, .obj hnodup hmembers => by
    rw [ValidMsg]
    exact ⟨hnodup, hmembers.valid⟩

theorem ConformsMembers.valid {gprotos : Json} : ∀ {kvs : List (String × Json)} {protos : Json},
    ConformsMembers gprotos protos kvs → ValidMembers gprotos kvs protos
  | _, _, .nil => by
    rw [ValidMembers]
    trivial
  | _, _, .cons hkey hfield hmembers => by
    rw [ValidMembers]
    exact ⟨⟨_, hkey, hfield.valid⟩, hmembers.valid⟩

theorem ConformsField.valid {gprotos : Json} : ∀ {v protos proto : Json},
    ConformsField gprotos protos proto v →
      if fieldOption proto = some "repeated" then ValidArray gprotos v protos proto
      else ValidValue gprotos protos proto v fun level => ValidMsg gprotos v level
  | _, _, _, .single hoption hv => by
    rw [if_neg hoption]
    exact hv.valid
  | _, _, _, .repeated hoption helems => by
    rw [if_pos hoption, ValidArray]
    exact helems.valid

theorem ConformsElems.valid {gprotos : Json} : ∀ {xs : List Json} {protos proto : Json},
    ConformsElems gprotos protos proto xs → ValidElems gprotos xs protos proto
  | _, _, _, .nil => by
    rw [ValidElems]
    trivial
  | _, _, _, .cons hx helems => by
    rw [ValidElems]
    exact ⟨hx.valid, helems.valid⟩

theorem ConformsValue.valid {gprotos : Json} : ∀ {v protos proto : Json},
    ConformsValue gprotos protos proto v →
      ValidValue gprotos protos proto v fun level => ValidMsg gprotos v level
  | _, _, _, .scalar htype hget hv => ⟨_, htype, .inl ⟨_, hget, .inl hv⟩⟩
  | _, _, _, .message htype hget hlevel hv => ⟨_, htype, .inr ⟨hget, _, hlevel, hv.valid⟩⟩

end

/-! ## The account -/

/-- The bytes of a varint. -/
def varintSize (n : ℕ) : ℕ := Nat.log 128 n + 1

/-- The bytes of a primitive value. -/
def scalarSize (t : PbType) (v : Json) : ℕ :=
  match t with
  | .uInt32 => varintSize (asUInt64 (jsonIntegerValue (some v)))
  | .int32 => varintSize (zigzag (jsonIntegerValue (some v)))
  | .sInt32 => varintSize (zigzag (jsonIntegerValue (some v)))
  | .float => 4
  | .double => 8
  | .string =>
    match jsonStringValue (some v) with
    | none => 0
    | some str => varintSize (utf8Bytes str).length + (utf8Bytes str).length

/-- What a message of `size` bytes with the account `spare` leaves behind its length. -/
def sparePrefixed (text : ℕ) (spare : ℤ) : ℤ :=
  spare - varintSize ((2 * text - spare).toNat % 2 ^ 64)

section Account

variable (dtostr : FiniteDouble → Bytes) (gprotos : Json)

/-- What one value leaves of twice its text, with `sub` what it leaves as a message of a
level. -/
def spareValue (protos proto v : Json) (sub : Json → ℤ) : ℤ :=
  match fieldType proto with
  | none => 0
  | some type =>
    match pbGetType type with
    | some t => 2 * (doDump dtostr v).length - scalarSize t v
    | none =>
      match resolveType gprotos protos type with
      | none => 0
      | some level => sparePrefixed (doDump dtostr v).length (sub level)

mutual

/-- **The account.** What a message leaves of twice its text. -/
def spare : Json → Json → ℤ
  | .obj kvs, protos => 4 + spareMembers kvs protos
  | _, _ => 0
termination_by structural x => x

/-- The members: the name, the colon and the comma are there for the tag and the value. -/
def spareMembers : List (String × Json) → Json → ℤ
  | [], _ => 0
  | (key, v) :: kvs, protos =>
    2 * (dumpString key).length + 2 + (if kvs.isEmpty then 0 else 2) +
      (match jsonObjectGet (some protos) key with
        | none => 0
        | some proto =>
          if fieldOption proto = some "repeated" then spareArray v protos proto
          else spareValue dtostr gprotos protos proto v (fun level => spare v level) -
            (wireTag proto).length) +
      spareMembers kvs protos
termination_by structural x => x

/-- An array: the brackets are there for the tag and the count of a packed one. -/
def spareArray : Json → Json → Json → ℤ
  | .arr xs, protos, proto =>
    4 - (if fieldPacked proto then (wireTag proto).length + varintSize (xs.length % 2 ^ 64) else 0) +
      spareElems xs (dumpCount xs.length) protos proto
  | _, _, _ => 0
termination_by structural x => x

/-- The elements: the comma is there for the tag of an unpacked one. Elements beyond the
count are not printed. -/
def spareElems : List Json → ℕ → Json → Json → ℤ
  | [], _, _, _ => 0
  | x :: xs, n, protos, proto =>
    (if n = 0 then -(2 * (doDump dtostr x).length : ℤ) else if n = 1 then 0 else 2) -
      (if fieldPacked proto then 0 else (wireTag proto).length) +
      spareValue dtostr gprotos protos proto x (fun level => spare x level) +
      spareElems xs (n - 1) protos proto
termination_by structural x => x

end

end Account

/-! ## The account is right -/

/-- The encoding succeeds, and its bytes and `spare` make up twice the text. -/
def Accounted (e : Encoding) (text : ℕ) (spare : ℤ) : Prop :=
  ∃ w, e = .ok w ∧ (w.length : ℤ) + spare = 2 * text

section Accounted

variable {e e' : Encoding} {text text' : ℕ} {a b : ℤ}

theorem Accounted.andThen (h : Accounted e text a) (h' : Accounted e' text' b) :
    Accounted (e.andThen e') (text + text') (a + b) := by
  obtain ⟨w, rfl, hw⟩ := h
  obtain ⟨w', rfl, hw'⟩ := h'
  refine ⟨w ++ w', rfl, ?_⟩
  rw [List.length_append]
  push_cast
  linarith

/-- The same up to the arithmetic. -/
theorem Accounted.congr (h : Accounted e text a) (htext : text = text') (hspare : a = b) :
    Accounted e text' b := by
  subst htext hspare
  exact h

theorem accounted_bytes (w : Bytes) : Accounted (.ok w) 0 (-w.length) := ⟨w, rfl, by simp⟩

theorem accounted_nil : Accounted (.ok []) 0 0 := ⟨[], rfl, rfl⟩

/-- Text that has no bytes of its own. -/
theorem Accounted.pad (h : Accounted e text a) (n : ℕ) : Accounted e (n + text) (2 * n + a) := by
  obtain ⟨w, rfl, hw⟩ := h
  refine ⟨w, rfl, ?_⟩
  push_cast
  linarith

theorem length_varintBytes {n : ℕ} (h : n < 2 ^ 64) : (varintBytes n).length = varintSize n := by
  rw [varintBytes_eq h, varintSize]
  apply le_antisymm
  · exact Leb128.length_encode_le (Nat.succ_pos _) (Nat.lt_pow_succ_log_self (by decide) n)
  · have hpos := Leb128.length_encode_pos n
    rcases Nat.eq_zero_or_pos n with rfl | hn
    · rw [Nat.log_zero_right]
      exact hpos
    · exact (Nat.log_lt_iff_lt_pow (by decide) hn.ne').mpr (Leb128.lt_pow_length_encode n)

theorem Accounted.prefixed (h : Accounted e text a) :
    Accounted e.prefixed text (sparePrefixed text a) := by
  obtain ⟨w, rfl, hw⟩ := h
  have hsize : (2 * (text : ℤ) - a).toNat = w.length := by omega
  refine ⟨wirePrefixed w, rfl, ?_⟩
  rw [wirePrefixed, List.length_append, sparePrefixed, hsize,
    length_varintBytes (Nat.mod_lt _ (by decide))]
  push_cast
  linarith

end Accounted

/-- The integer types. -/
theorem ValidScalar.int {t : PbType} {v : Json} (h : ValidScalar t v)
    (ht : t = .uInt32 ∨ t = .int32 ∨ t = .sInt32) : ∃ i : ℤ, v = .int i ∧ i.natAbs ≤ 2 ^ 53 := by
  rcases h with h | ⟨hreal, -⟩
  · rcases ht with rfl | rfl | rfl <;> exact h
  · rcases ht with rfl | rfl | rfl <;> exact absurd hreal (by simp)

theorem ValidScalar.string {v : Json} (h : ValidScalar .string v) :
    ∃ s : String, v = .str s ∧ 0 ∉ utf8Bytes s ∧ (utf8Bytes s).length < 2 ^ 31 := by
  rcases h with h | ⟨hreal, -⟩
  · exact h
  · exact absurd hreal (by simp)

theorem encodingScalar_valid {t : PbType} {v : Json} (h : ValidScalar t v) :
    ∃ w, encodingScalar t v = .ok w ∧ w.length = scalarSize t v := by
  cases t with
  | uInt32 =>
    obtain ⟨i, rfl, hi⟩ := h.int (.inl rfl)
    refine ⟨_, rfl, ?_⟩
    rw [cvtInt64_int hi, length_varintBytes (asUInt64_lt i)]
    rfl
  | int32 =>
    obtain ⟨i, rfl, hi⟩ := h.int (.inr (.inl rfl))
    refine ⟨_, rfl, ?_⟩
    rw [cvtInt64_int hi, length_varintBytes (zigzag_lt i)]
    rfl
  | sInt32 =>
    obtain ⟨i, rfl, hi⟩ := h.int (.inr (.inr rfl))
    refine ⟨_, rfl, ?_⟩
    rw [cvtInt64_int hi, length_varintBytes (zigzag_lt i)]
    rfl
  | float => exact ⟨_, rfl, length_leBytes ..⟩
  | double => exact ⟨_, rfl, length_leBytes ..⟩
  | string =>
    obtain ⟨s, rfl, -, hs⟩ := h.string
    refine ⟨_, rfl, ?_⟩
    have hmod : stringLength (utf8Bytes s).length % 2 ^ 64 = (utf8Bytes s).length := by
      rw [stringLength_of_lt hs, Nat.mod_eq_of_lt (by omega)]
    rw [List.length_append, length_copied, hmod, stringLength_of_lt hs,
      length_varintBytes (by omega)]
    rfl

section Sum

variable {dtostr : FiniteDouble → Bytes} {gprotos protos proto v : Json}

theorem accounted_tag {type : String} (htype : fieldType proto = some type) :
    Accounted (encodingTag proto) 0 (-(wireTag proto).length) := by
  rw [encodingTag, htype]
  exact accounted_bytes (wireTag proto)

theorem accounted_value {sub : Json → Prop} {enc : Json → Encoding} {left : Json → ℤ}
    (h : ValidValue gprotos protos proto v sub)
    (hsub : ∀ level, (∃ type, fieldType proto = some type ∧ pbGetType type = none ∧
      resolveType gprotos protos type = some level) → sub level →
      Accounted (enc level) (doDump dtostr v).length (left level)) :
    Accounted (encodingValue gprotos protos proto v enc) (doDump dtostr v).length
      (spareValue dtostr gprotos protos proto v left) := by
  obtain ⟨type, htype, ⟨t, hget, hscalar⟩ | ⟨hget, level, hlevel, hv⟩⟩ := h
  · obtain ⟨w, hw, hsize⟩ := encodingScalar_valid hscalar
    simp only [encodingValue, spareValue, htype, hget]
    exact ⟨w, hw, by rw [hsize]; ring⟩
  · have hmsg := hsub level ⟨type, htype, hget, hlevel⟩ hv
    have hlevel' := hlevel
    simp only [resolveType, Option.bind_eq_some_iff] at hlevel'
    obtain ⟨messages, hmessages, hresolve⟩ := hlevel'
    simp only [encodingValue, spareValue, htype, hget, hlevel, hmessages, hresolve]
    exact hmsg.prefixed

theorem length_dumpMembers_cons (key : String) (v : Json) (kvs : List (String × Json)) :
    (dumpMembers dtostr ((key, v) :: kvs)).length =
      (dumpString key).length + 1 + (if kvs.isEmpty then 0 else 1) +
        ((doDump dtostr v).length + (dumpMembers dtostr kvs).length) := by
  cases kvs with
  | nil => simp [dumpMembers]; omega
  | cons kv kvs =>
    rw [dumpMembers]
    simp only [List.isEmpty_cons, Bool.false_eq_true, if_false, List.length_append, List.length_cons]
    omega

theorem length_dumpElems_cons (x : Json) (xs : List Json) {n : ℕ} (hn : n ≠ 0) :
    (dumpElems dtostr (x :: xs) n).length =
      (if n = 1 then 0 else 1) + ((doDump dtostr x).length + (dumpElems dtostr xs (n - 1)).length) := by
  rw [dumpElems, if_neg hn]
  split
  · next h1 =>
    subst h1
    cases xs with
    | nil => simp [dumpElems]
    | cons x' xs => simp [dumpElems]
  · rw [List.length_append, List.length_cons]
    omega

end Sum

mutual

/-- **The account is right.** -/
theorem accounted_encoding (dtostr : FiniteDouble → Bytes) (gprotos : Json) : ∀ (msg protos : Json),
    ConformingSchema gprotos protos → ValidMsg gprotos msg protos →
    Accounted (encoding gprotos msg protos) (doDump dtostr msg).length
      (spare dtostr gprotos msg protos)
  | .obj kvs, protos, hschema, h => by
    rw [ValidMsg] at h
    have hmembers := accounted_encodingFields dtostr gprotos kvs protos hschema h.2
    rw [encoding, spare, doDump]
    refine (hmembers.pad 2).congr ?_ (by norm_num)
    rw [List.length_cons, List.length_append, List.length_singleton]
    omega
  | .null, _, _, h => by simp [ValidMsg] at h
  | .bool _, _, _, h => by simp [ValidMsg] at h
  | .int _, _, _, h => by simp [ValidMsg] at h
  | .real _, _, _, h => by simp [ValidMsg] at h
  | .str _, _, _, h => by simp [ValidMsg] at h
  | .arr _, _, _, h => by simp [ValidMsg] at h

theorem accounted_encodingFields (dtostr : FiniteDouble → Bytes) (gprotos : Json) :
    ∀ (kvs : List (String × Json)) (protos : Json), ConformingSchema gprotos protos →
      ValidMembers gprotos kvs protos →
      Accounted (encodingFields gprotos kvs protos) (dumpMembers dtostr kvs).length
        (spareMembers dtostr gprotos kvs protos)
  | [], _, _, _ => by
    rw [encodingFields, spareMembers, dumpMembers]
    exact accounted_nil
  | (key, v) :: kvs, protos, hschema, h => by
    rw [ValidMembers] at h
    obtain ⟨⟨proto, hkey, hv⟩, hmembers⟩ := h
    obtain ⟨-, tags, -, hfields⟩ := hschema.level
    obtain ⟨hoption, -, type, htype, -⟩ := hfields key proto hkey
    have hrest := accounted_encodingFields dtostr gprotos kvs protos hschema hmembers
    have hlevels : ∀ level, (∃ type, fieldType proto = some type ∧ pbGetType type = none ∧
        resolveType gprotos protos type = some level) → ConformingSchema gprotos level :=
      fun _ ⟨_, htype, hget, hlevel⟩ => hschema.sub hkey htype hget hlevel
    rw [encodingFields, spareMembers, hkey.1, length_dumpMembers_cons]
    dsimp only
    -- the key and its punctuation pay for what the field needs beyond its value
    by_cases hrep : fieldOption proto = some "repeated"
    · rw [if_pos hrep] at hv ⊢
      have harray := accounted_encodingArray dtostr gprotos v protos proto hschema hlevels htype hv
      rw [hrep]
      apply ((harray.andThen hrest).pad _).congr rfl
      split <;> push_cast <;> ring
    · rw [if_neg hrep] at hv ⊢
      have hvalue : Accounted
          (encodingValue gprotos protos proto v fun level => encoding gprotos v level)
          (doDump dtostr v).length
          (spareValue dtostr gprotos protos proto v fun level => spare dtostr gprotos v level) :=
        accounted_value hv fun level hlevel hmsg =>
          accounted_encoding dtostr gprotos v level (hlevels level hlevel) hmsg
      have hfield := (accounted_tag htype).andThen hvalue
      obtain ⟨option, hopt, hsingle⟩ : ∃ option, fieldOption proto = some option ∧
          (option = "required" ∨ option = "optional") := by
        rcases hoption with h | h | h
        · exact ⟨_, h, .inl rfl⟩
        · exact ⟨_, h, .inr rfl⟩
        · exact absurd h hrep
      rw [hopt]
      dsimp only
      rw [if_pos hsingle]
      refine ((hfield.andThen hrest).pad
        ((dumpString key).length + 1 + (if kvs.isEmpty then 0 else 1))).congr (by rw [Nat.zero_add]) ?_
      split <;> push_cast <;> ring

theorem accounted_encodingArray (dtostr : FiniteDouble → Bytes) (gprotos : Json) :
    ∀ (v protos proto : Json) {type : String}, ConformingSchema gprotos protos →
      (∀ level, (∃ type, fieldType proto = some type ∧ pbGetType type = none ∧
        resolveType gprotos protos type = some level) → ConformingSchema gprotos level) →
      fieldType proto = some type → ValidArray gprotos v protos proto →
      Accounted (encodingArray gprotos v protos proto) (doDump dtostr v).length
        (spareArray dtostr gprotos v protos proto)
  | .arr xs, protos, proto, type, hschema, hlevels, htype, h => by
    rw [ValidArray] at h
    have hpacked : fieldPacked proto = pbIsPacked type := by rw [fieldPacked, htype]; rfl
    have helems := accounted_encodingElems dtostr gprotos xs (dumpCount xs.length) protos proto
      hlevels htype h
    rw [encodingArray, spareArray, doDump, htype]
    dsimp only
    rw [hpacked] at helems ⊢
    cases hpack : pbIsPacked type with
    | false =>
      -- one tag for each element, paid for by its comma
      rw [hpack] at helems
      refine ((accounted_nil.andThen helems).pad 2).congr ?_ (by simp)
      rw [List.length_cons, List.length_append, List.length_singleton]
      omega
    | true =>
      -- one tag and the number of elements
      rw [hpack] at helems
      have hhead := (accounted_tag htype).andThen
        (accounted_bytes (varintBytes (xs.length % 2 ^ 64)))
      apply ((hhead.andThen helems).pad 2).congr
      · rw [List.length_cons, List.length_append, List.length_singleton]
        omega
      · rw [length_varintBytes (Nat.mod_lt _ (by decide))]
        push_cast
        simp only [if_true]
        ring
  | .null, _, _, _, _, _, _, h => by simp [ValidArray] at h
  | .bool _, _, _, _, _, _, _, h => by simp [ValidArray] at h
  | .int _, _, _, _, _, _, _, h => by simp [ValidArray] at h
  | .real _, _, _, _, _, _, _, h => by simp [ValidArray] at h
  | .str _, _, _, _, _, _, _, h => by simp [ValidArray] at h
  | .obj _, _, _, _, _, _, _, h => by simp [ValidArray] at h

theorem accounted_encodingElems (dtostr : FiniteDouble → Bytes) (gprotos : Json) :
    ∀ (xs : List Json) (n : ℕ) (protos proto : Json) {type : String},
      (∀ level, (∃ type, fieldType proto = some type ∧ pbGetType type = none ∧
        resolveType gprotos protos type = some level) → ConformingSchema gprotos level) →
      fieldType proto = some type → ValidElems gprotos xs protos proto →
      Accounted (encodingElems gprotos xs protos proto (fieldPacked proto))
        (dumpElems dtostr xs n).length (spareElems dtostr gprotos xs n protos proto)
  | [], _, _, _, _, _, _, _ => by
    rw [encodingElems, spareElems, dumpElems]
    exact accounted_nil
  | x :: xs, n, protos, proto, type, hlevels, htype, h => by
    rw [ValidElems] at h
    have hrest := accounted_encodingElems dtostr gprotos xs (n - 1) protos proto hlevels htype h.2
    have hvalue : Accounted
        (encodingValue gprotos protos proto x fun level => encoding gprotos x level)
        (doDump dtostr x).length
        (spareValue dtostr gprotos protos proto x fun level => spare dtostr gprotos x level) :=
      accounted_value h.1 fun level hlevel hmsg =>
        accounted_encoding dtostr gprotos x level (hlevels level hlevel) hmsg
    have htag : Accounted (if fieldPacked proto then .ok [] else encodingTag proto) 0
        (-(if fieldPacked proto then 0 else (wireTag proto).length : ℤ)) := by
      split
      · exact accounted_nil
      · exact accounted_tag htype
    have hall := htag.andThen (hvalue.andThen hrest)
    rw [encodingElems, spareElems]
    by_cases hn : n = 0
    · -- encoded, but not printed
      subst hn
      obtain ⟨w, hw, hlength⟩ := hall
      refine ⟨w, hw, ?_⟩
      have hnone : (dumpElems dtostr xs (0 - 1)).length = 0 := by
        cases xs <;> rfl
      rw [hnone] at hlength
      have hnone' : (dumpElems dtostr (x :: xs) 0).length = 0 := rfl
      rw [hnone', if_pos rfl]
      push_cast at hlength ⊢
      linarith
    · rw [length_dumpElems_cons x xs hn, if_neg hn]
      apply (hall.pad (if n = 1 then 0 else 1)).congr (by rw [Nat.zero_add])
      split <;> push_cast <;> ring

end

/-! ## When the buffer suffices -/

/-- **The buffer suffices.** Whenever it can be allocated, the encoder succeeds. -/
def ScratchSuffices (dtostr : FiniteDouble → Bytes) (gprotos protos msg : Json) : Prop :=
  ∀ ms text, jsonDumps dtostr msg = some text → (mallocSize ms (scratchSize text)).1 = true →
    ∃ body, pcPbEncode (scratchSize text) gprotos protos msg = .ok body

section Suffices

variable {dtostr : FiniteDouble → Bytes} {gprotos protos msg : Json}

/-- A valid message is an object, which is printed. -/
theorem jsonDumps_of_valid (h : ValidMsg gprotos msg protos) :
    jsonDumps dtostr msg = some (doDump dtostr msg) := by
  cases msg with
  | obj kvs => rfl
  | _ => simp [ValidMsg] at h

theorem scratchSize_eq (text : Bytes) : scratchSize text = 2 * text.length := by
  rw [scratchSize, pbEvalFactor, Nat.mul_comm]

theorem spare_nonneg_of_suffices (hschema : ConformingSchema gprotos protos)
    (hmsg : ValidMsg gprotos msg protos) (h : ScratchSuffices dtostr gprotos protos msg)
    (hlt : scratchSize (doDump dtostr msg) < 2 ^ 63) : 0 ≤ spare dtostr gprotos msg protos := by
  obtain ⟨w, henc, haccount⟩ := accounted_encoding dtostr gprotos msg protos hschema hmsg
  have halloc : (mallocSize [] (scratchSize (doDump dtostr msg))).1 = true := by
    rw [mallocSize, decide_eq_true hlt]
    rfl
  obtain ⟨body, hbody⟩ := h [] _ (jsonDumps_of_valid hmsg) halloc
  obtain ⟨hbody', hle⟩ := (pcPbEncode_eq_ok hlt).mp hbody
  obtain rfl := Except.ok.inj (henc.symm.trans hbody')
  rw [scratchSize_eq] at hle
  omega

theorem suffices_of_spare_nonneg (hschema : ConformingSchema gprotos protos)
    (hmsg : ValidMsg gprotos msg protos)
    (h : scratchSize (doDump dtostr msg) < 2 ^ 63 → 0 ≤ spare dtostr gprotos msg protos) :
    ScratchSuffices dtostr gprotos protos msg := by
  obtain ⟨w, henc, haccount⟩ := accounted_encoding dtostr gprotos msg protos hschema hmsg
  intro ms text htext halloc
  obtain rfl := Option.some.inj ((jsonDumps_of_valid hmsg).symm.trans htext)
  have hsize := lt_of_mallocSize halloc
  have hspare := h hsize
  refine ⟨w, (pcPbEncode_eq_ok hsize).mpr ⟨henc, ?_⟩⟩
  rw [scratchSize_eq]
  omega

end Suffices

/-! ## Plain messages -/

/-- A value that the factor was made for: no integer of one or two characters as a double,
no negative integer of two or three characters as a `uInt32`. -/
def PlainScalar (t : PbType) (v : Json) : Prop :=
  ∀ i : ℤ, v = .int i → (t = .double → i ≤ -10 ∨ 100 ≤ i) ∧ (t = .uInt32 → 0 ≤ i ∨ i ≤ -100)

/-- The same for a value of the type of a field. -/
def PlainValue (gprotos protos proto v : Json) (sub : Json → Prop) : Prop :=
  ∀ type, fieldType proto = some type → (∀ t, pbGetType type = some t → PlainScalar t v) ∧
    (pbGetType type = none → ∀ level, resolveType gprotos protos type = some level → sub level)

mutual

/-- A message of such values, in fields with tags of at most two bytes and arrays of fewer
than `2 ^ 31` elements. -/
def PlainMsg (gprotos : Json) : Json → Json → Prop
  | .obj kvs, protos => PlainMembers gprotos kvs protos
  | _, _ => True
termination_by structural x => x

/-- `PlainMsg` member by member. -/
def PlainMembers (gprotos : Json) : List (String × Json) → Json → Prop
  | [], _ => True
  | (key, v) :: kvs, protos =>
    (∀ proto, jsonObjectGet (some protos) key = some proto → (wireTag proto).length ≤ 2 ∧
      if fieldOption proto = some "repeated" then PlainArray gprotos v protos proto
      else PlainValue gprotos protos proto v fun level => PlainMsg gprotos v level) ∧
      PlainMembers gprotos kvs protos
termination_by structural x => x

/-- The value of a repeated field. -/
def PlainArray (gprotos : Json) : Json → Json → Json → Prop
  | .arr xs, protos, proto => xs.length < 2 ^ 31 ∧ PlainElems gprotos xs protos proto
  | _, _, _ => True
termination_by structural x => x

/-- `PlainMsg` element by element. -/
def PlainElems (gprotos : Json) : List Json → Json → Json → Prop
  | [], _, _ => True
  | x :: xs, protos, proto =>
    (PlainValue gprotos protos proto x fun level => PlainMsg gprotos x level) ∧
      PlainElems gprotos xs protos proto
termination_by structural x => x

end

section Plain

variable {dtostr : FiniteDouble → Bytes}

theorem varintSize_le {n k : ℕ} (hk : 0 < k) (h : n < 128 ^ k) : varintSize n ≤ k := by
  rw [varintSize]
  rcases Nat.eq_zero_or_pos n with rfl | hn
  · rw [Nat.log_zero_right]
    exact hk
  · exact (Nat.log_lt_iff_lt_pow (by decide) hn.ne').mpr h

theorem zigzag_le {i : ℤ} (h : i.natAbs ≤ 2 ^ 53) : zigzag i ≤ 2 * i.natAbs := by
  unfold zigzag asUInt64
  split <;> omega

theorem pow_ten_le (k : ℕ) : 10 ^ k ≤ 128 ^ k := Nat.pow_le_pow_left (by decide) k

/-- Two or three digits take as many characters. -/
theorem le_digits {n j k : ℕ} (hn : 10 ^ j ≤ n) (hk : n < 10 ^ k) : j < k :=
  (Nat.pow_lt_pow_iff_right (by decide)).mp (hn.trans_lt hk)

theorem varintSize_asUInt64_le {i : ℤ} (hi : i.natAbs ≤ 2 ^ 53) (h : 0 ≤ i ∨ i ≤ -100) :
    varintSize (asUInt64 i) ≤ 2 * (dumpInteger i).length + 2 := by
  obtain ⟨k, hk, hlt, hlen⟩ := length_dumpInteger i
  rw [hlen]
  rcases h with hpos | hneg
  · have hvalue : asUInt64 i = i.natAbs := by
      unfold asUInt64
      omega
    have hsize := varintSize_le hk (hlt.trans_le (pow_ten_le k))
    rw [hvalue]
    split <;> omega
  · -- ten bytes, four characters
    have hsize := varintSize_le (n := asUInt64 i) (k := 10) (by decide)
      ((asUInt64_lt i).trans (by decide))
    have hdigits : 2 < k := le_digits (show 10 ^ 2 ≤ i.natAbs by omega) hlt
    rw [if_pos (by omega)]
    omega

theorem varintSize_zigzag_le {i : ℤ} (hi : i.natAbs ≤ 2 ^ 53) :
    varintSize (zigzag i) ≤ 2 * (dumpInteger i).length + 2 := by
  obtain ⟨k, hk, hlt, hlen⟩ := length_dumpInteger i
  have hbound : zigzag i < 128 ^ (k + 1) := by
    have hle := zigzag_le hi
    have hpow := pow_ten_le (k + 1)
    rw [pow_succ 10] at hpow
    omega
  have hsize := varintSize_le (Nat.succ_pos k) hbound
  rw [hlen]
  split <;> omega

theorem length_doDump_double {v : Json} (hreal : ∀ x, 3 ≤ (dtostr x).length)
    (hv : ValidScalar .double v) (hplain : PlainScalar .double v) :
    3 ≤ (doDump dtostr v).length := by
  obtain ⟨x, rfl⟩ | ⟨-, i, rfl⟩ := hv
  · exact hreal x
  · obtain ⟨k, hk, hlt, hlen⟩ := length_dumpInteger i
    show 3 ≤ (dumpInteger i).length
    rw [hlen]
    rcases (hplain i rfl).1 rfl with hneg | hpos
    · have hdigits : 1 < k := le_digits (show 10 ^ 1 ≤ i.natAbs by omega) hlt
      rw [if_pos (by omega)]
      omega
    · have hdigits : 2 < k := le_digits (show 10 ^ 2 ≤ i.natAbs by omega) hlt
      split <;> omega

theorem length_doDump_float {v : Json} (hreal : ∀ x, 3 ≤ (dtostr x).length)
    (hv : ValidScalar .float v) : 1 ≤ (doDump dtostr v).length := by
  obtain ⟨x, rfl, -⟩ | ⟨-, i, rfl⟩ := hv
  · exact (Nat.le_add_left 1 2).trans (hreal x)
  · obtain ⟨k, hk, -, hlen⟩ := length_dumpInteger i
    show 1 ≤ (dumpInteger i).length
    rw [hlen]
    split <;> omega

/-- A string has room to spare. -/
theorem scalarSize_string_le {v : Json} (hv : ValidScalar .string v) :
    scalarSize .string v ≤ 2 * (doDump dtostr v).length := by
  obtain ⟨s, rfl, hzero, -⟩ := hv.string
  have htext := length_dumpString_ge s
  rw [cString_of_not_mem hzero] at htext
  have hlog : Nat.log 128 (utf8Bytes s).length ≤ (utf8Bytes s).length := Nat.log_le_self _ _
  show varintSize (utf8Bytes s).length + (utf8Bytes s).length ≤ 2 * (dumpString s).length
  rw [varintSize]
  omega

/-- A plain scalar and a comma make up for its bytes. -/
theorem scalarSize_le {t : PbType} {v : Json} (hreal : ∀ x, 3 ≤ (dtostr x).length)
    (hv : ValidScalar t v) (hplain : PlainScalar t v) :
    scalarSize t v ≤ 2 * (doDump dtostr v).length + 2 := by
  cases t with
  | uInt32 =>
    obtain ⟨i, rfl, hi⟩ := hv.int (.inl rfl)
    exact varintSize_asUInt64_le hi ((hplain i rfl).2 rfl)
  | int32 =>
    obtain ⟨i, rfl, hi⟩ := hv.int (.inr (.inl rfl))
    exact varintSize_zigzag_le hi
  | sInt32 =>
    obtain ⟨i, rfl, hi⟩ := hv.int (.inr (.inr rfl))
    exact varintSize_zigzag_le hi
  | float =>
    have hlen := length_doDump_float hreal hv
    show 4 ≤ 2 * (doDump dtostr v).length + 2
    omega
  | double =>
    have hlen := length_doDump_double hreal hv hplain
    show 8 ≤ 2 * (doDump dtostr v).length + 2
    omega
  | string => exact (scalarSize_string_le hv).trans (Nat.le_add_right _ _)

/-- A nested message makes up for its length if it is empty or has five bytes to spare. -/
theorem sparePrefixed_nonneg {text : ℕ} {a : ℤ} (htext : text < 2 ^ 34) (ha : 4 ≤ a)
    (h : text = 2 ∨ 5 ≤ a) : 0 ≤ sparePrefixed text a := by
  rw [sparePrefixed]
  have hmod : (2 * (text : ℤ) - a).toNat % 2 ^ 64 ≤ (2 * (text : ℤ) - a).toNat := Nat.mod_le _ _
  rcases h with rfl | ha5
  · have hsize := varintSize_le (n := (2 * ((2 : ℕ) : ℤ) - a).toNat % 2 ^ 64) (k := 1) (by decide)
      (by omega)
    omega
  · have hsize := varintSize_le (n := (2 * (text : ℤ) - a).toNat % 2 ^ 64) (k := 5) (by decide)
      (by omega)
    omega

variable {gprotos protos proto v : Json}

/-- What a plain value leaves: a comma is enough to make up for it, and values that are not
packed need none. -/
theorem spareValue_ge {valid plain : Json → Prop} {left : Json → ℤ}
    (hreal : ∀ x, 3 ≤ (dtostr x).length) (htext : (doDump dtostr v).length < 2 ^ 34)
    (hv : ValidValue gprotos protos proto v valid) (hplain : PlainValue gprotos protos proto v plain)
    (hsub : ∀ level, (∃ type, fieldType proto = some type ∧ pbGetType type = none ∧
      resolveType gprotos protos type = some level) → valid level → plain level →
      4 ≤ left level ∧ ((doDump dtostr v).length = 2 ∨ 5 ≤ left level)) :
    -2 ≤ spareValue dtostr gprotos protos proto v left ∧
      (fieldPacked proto = false → 0 ≤ spareValue dtostr gprotos protos proto v left) := by
  obtain ⟨type, htype, ⟨t, hget, hscalar⟩ | ⟨hget, level, hlevel, hmsg⟩⟩ := hv
  · have hsize := scalarSize_le hreal hscalar ((hplain type htype).1 t hget)
    simp only [spareValue, htype, hget]
    refine ⟨by omega, fun hpacked => ?_⟩
    have hstring : t = .string := by
      rw [fieldPacked, htype, Option.map_some, Option.getD_some, pbIsPacked, hget] at hpacked
      cases t <;> first | rfl | exact absurd hpacked (by decide)
    subst hstring
    have hstr : scalarSize .string v ≤ 2 * (doDump dtostr v).length := scalarSize_string_le hscalar
    omega
  · obtain ⟨ha, hsmall⟩ := hsub level ⟨type, htype, hget, hlevel⟩ hmsg
      ((hplain type htype).2 hget level hlevel)
    have hnonneg := sparePrefixed_nonneg htext ha hsmall
    simp only [spareValue, htype, hget, hlevel]
    exact ⟨by omega, fun _ => hnonneg⟩

end Plain

mutual

/-- **Plain messages.** What a plain message leaves of twice its text. -/
theorem spare_plain {dtostr : FiniteDouble → Bytes} (hreal : ∀ x, 3 ≤ (dtostr x).length)
    (gprotos : Json) : ∀ (msg protos : Json), ConformingSchema gprotos protos →
      ValidMsg gprotos msg protos → PlainMsg gprotos msg protos →
      (doDump dtostr msg).length < 2 ^ 34 →
      4 ≤ spare dtostr gprotos msg protos ∧
        ((doDump dtostr msg).length = 2 ∨ 5 ≤ spare dtostr gprotos msg protos)
  | .obj kvs, protos, hschema, hv, hplain, htext => by
    rw [ValidMsg] at hv
    rw [PlainMsg] at hplain
    have hlen : (doDump dtostr (.obj kvs)).length = (dumpMembers dtostr kvs).length + 2 := by
      rw [doDump, List.length_cons, List.length_append, List.length_singleton]
    obtain ⟨hnonneg, hsome⟩ := spareMembers_plain hreal gprotos kvs protos hschema hv.2 hplain
      (by omega)
    rw [hlen, spare]
    refine ⟨by omega, ?_⟩
    rcases hsome with rfl | hpos
    · exact .inl rfl
    · exact .inr (by omega)
  | .null, _, _, hv, _, _ => by simp [ValidMsg] at hv
  | .bool _, _, _, hv, _, _ => by simp [ValidMsg] at hv
  | .int _, _, _, hv, _, _ => by simp [ValidMsg] at hv
  | .real _, _, _, hv, _, _ => by simp [ValidMsg] at hv
  | .str _, _, _, hv, _, _ => by simp [ValidMsg] at hv
  | .arr _, _, _, hv, _, _ => by simp [ValidMsg] at hv

theorem spareMembers_plain {dtostr : FiniteDouble → Bytes} (hreal : ∀ x, 3 ≤ (dtostr x).length)
    (gprotos : Json) : ∀ (kvs : List (String × Json)) (protos : Json),
      ConformingSchema gprotos protos → ValidMembers gprotos kvs protos →
      PlainMembers gprotos kvs protos → (dumpMembers dtostr kvs).length < 2 ^ 34 →
      0 ≤ spareMembers dtostr gprotos kvs protos ∧
        (kvs = [] ∨ 1 ≤ spareMembers dtostr gprotos kvs protos)
  | [], _, _, _, _, _ => by
    rw [spareMembers]
    exact ⟨le_rfl, .inl rfl⟩
  | (key, v) :: kvs, protos, hschema, hv, hplain, htext => by
    rw [ValidMembers] at hv
    rw [PlainMembers] at hplain
    obtain ⟨⟨proto, hkey, hv⟩, hmembers⟩ := hv
    obtain ⟨htag, hfield⟩ := hplain.1 proto hkey.1
    rw [length_dumpMembers_cons] at htext
    have hlevels : ∀ level, (∃ type, fieldType proto = some type ∧ pbGetType type = none ∧
        resolveType gprotos protos type = some level) → ConformingSchema gprotos level :=
      fun _ ⟨_, htype, hget, hlevel⟩ => hschema.sub hkey htype hget hlevel
    have hname := length_dumpString_ge key
    obtain ⟨hrest, -⟩ := spareMembers_plain hreal gprotos kvs protos hschema hmembers hplain.2
      (by omega)
    have hshare : -5 ≤ (if fieldOption proto = some "repeated" then
        spareArray dtostr gprotos v protos proto
        else spareValue dtostr gprotos protos proto v (fun level => spare dtostr gprotos v level) -
          (wireTag proto).length) := by
      by_cases hrep : fieldOption proto = some "repeated"
      · rw [if_pos hrep] at hv hfield ⊢
        exact spareArray_plain hreal gprotos v protos proto hlevels htag hv hfield (by omega)
      · rw [if_neg hrep] at hv hfield ⊢
        have hvalue : -2 ≤ spareValue dtostr gprotos protos proto v
            (fun level => spare dtostr gprotos v level) :=
          (spareValue_ge hreal (by omega) hv hfield fun level hlevel hmsg hsub =>
            spare_plain hreal gprotos v level (hlevels level hlevel) hmsg hsub (by omega)).1
        omega
    rw [spareMembers, hkey.1]
    dsimp only
    refine ⟨?_, .inr ?_⟩
    · split <;> omega
    · split <;> omega

theorem spareArray_plain {dtostr : FiniteDouble → Bytes} (hreal : ∀ x, 3 ≤ (dtostr x).length)
    (gprotos : Json) : ∀ (v protos proto : Json),
      (∀ level, (∃ type, fieldType proto = some type ∧ pbGetType type = none ∧
        resolveType gprotos protos type = some level) → ConformingSchema gprotos level) →
      (wireTag proto).length ≤ 2 → ValidArray gprotos v protos proto →
      PlainArray gprotos v protos proto → (doDump dtostr v).length < 2 ^ 34 →
      -5 ≤ spareArray dtostr gprotos v protos proto
  | .arr xs, protos, proto, hlevels, htag, hv, hplain, htext => by
    rw [ValidArray] at hv
    rw [PlainArray] at hplain
    have hcount : dumpCount xs.length = xs.length := dumpCount_of_lt hplain.1
    rw [doDump, List.length_cons, List.length_append, List.length_singleton, hcount] at htext
    have helems := spareElems_plain hreal gprotos xs protos proto hlevels htag hv hplain.2 (by omega)
    have hsize := varintSize_le (n := xs.length % 2 ^ 64) (k := 5) (by decide) (by
      have := Nat.mod_le xs.length (2 ^ 64)
      omega)
    rw [spareArray, hcount]
    split <;> omega
  | .null, _, _, _, _, hv, _, _ => by simp [ValidArray] at hv
  | .bool _, _, _, _, _, hv, _, _ => by simp [ValidArray] at hv
  | .int _, _, _, _, _, hv, _, _ => by simp [ValidArray] at hv
  | .real _, _, _, _, _, hv, _, _ => by simp [ValidArray] at hv
  | .str _, _, _, _, _, hv, _, _ => by simp [ValidArray] at hv
  | .obj _, _, _, _, _, hv, _, _ => by simp [ValidArray] at hv

theorem spareElems_plain {dtostr : FiniteDouble → Bytes} (hreal : ∀ x, 3 ≤ (dtostr x).length)
    (gprotos : Json) : ∀ (xs : List Json) (protos proto : Json),
      (∀ level, (∃ type, fieldType proto = some type ∧ pbGetType type = none ∧
        resolveType gprotos protos type = some level) → ConformingSchema gprotos level) →
      (wireTag proto).length ≤ 2 → ValidElems gprotos xs protos proto →
      PlainElems gprotos xs protos proto → (dumpElems dtostr xs xs.length).length < 2 ^ 34 →
      -2 ≤ spareElems dtostr gprotos xs xs.length protos proto
  | [], _, _, _, _, _, _, _ => by
    rw [spareElems]
    decide
  | x :: xs, protos, proto, hlevels, htag, hv, hplain, htext => by
    rw [ValidElems] at hv
    rw [PlainElems] at hplain
    have hne : (x :: xs).length ≠ 0 := Nat.succ_ne_zero _
    have hlast : (x :: xs).length - 1 = xs.length := rfl
    rw [length_dumpElems_cons x xs hne, hlast] at htext
    have hrest := spareElems_plain hreal gprotos xs protos proto hlevels htag hv.2 hplain.2 (by omega)
    have hvalue : -2 ≤ spareValue dtostr gprotos protos proto x
          (fun level => spare dtostr gprotos x level) ∧
        (fieldPacked proto = false →
          0 ≤ spareValue dtostr gprotos protos proto x fun level => spare dtostr gprotos x level) :=
      spareValue_ge hreal (by omega) hv.1 hplain.1 fun level hlevel hmsg hsub =>
        spare_plain hreal gprotos x level (hlevels level hlevel) hmsg hsub (by omega)
    obtain ⟨hvalue, hunpacked⟩ := hvalue
    have hshare : -2 ≤ spareValue dtostr gprotos protos proto x
          (fun level => spare dtostr gprotos x level) -
        (if fieldPacked proto then 0 else (wireTag proto).length : ℕ) := by
      cases hpacked : fieldPacked proto with
      | false =>
        have hnonneg := hunpacked hpacked
        rw [if_neg Bool.false_ne_true]
        omega
      | true =>
        rw [if_pos rfl]
        omega
    rw [spareElems, if_neg hne, hlast]
    cases xs with
    | nil =>
      -- the last one has no comma
      have hone : [x].length = 1 := rfl
      rw [spareElems, if_pos hone]
      omega
    | cons x' xs =>
      rw [if_neg (by simp)]
      omega

end

/-- **Plain messages fit.** -/
theorem scratchSuffices_of_plain {dtostr : FiniteDouble → Bytes} {gprotos protos msg : Json}
    (hreal : ∀ x, 3 ≤ (dtostr x).length) (hschema : ConformingSchema gprotos protos)
    (hmsg : ValidMsg gprotos msg protos) (hplain : PlainMsg gprotos msg protos)
    (htext : (doDump dtostr msg).length < 2 ^ 34) : ScratchSuffices dtostr gprotos protos msg := by
  have hspare := (spare_plain hreal gprotos msg protos hschema hmsg hplain htext).1
  exact suffices_of_spare_nonneg hschema hmsg fun _ => by omega

/-! ## The buffer and the account -/

/-- **Scratch buffers.** For a conforming schema and a valid message, the buffer suffices
exactly if the account is not overdrawn; beside that, a text of `2 ^ 62` bytes would be too
long for any buffer. Where a double has three characters at least, the account of a plain
message is not overdrawn. -/
theorem scratchSuffices_iff {dtostr : FiniteDouble → Bytes} {gprotos protos msg : Json}
    (hschema : ConformingSchema gprotos protos) (hmsg : ValidMsg gprotos msg protos) :
    (ScratchSuffices dtostr gprotos protos msg ↔
      (scratchSize (doDump dtostr msg) < 2 ^ 63 → 0 ≤ spare dtostr gprotos msg protos)) ∧
    ((∀ x, 3 ≤ (dtostr x).length) → PlainMsg gprotos msg protos →
      (doDump dtostr msg).length < 2 ^ 34 → ScratchSuffices dtostr gprotos protos msg) :=
  ⟨⟨spare_nonneg_of_suffices hschema hmsg, suffices_of_spare_nonneg hschema hmsg⟩,
    fun hreal hplain htext => scratchSuffices_of_plain hreal hschema hmsg hplain htext⟩

/-! ## A schema with one repeated double -/

/-- `a` is a repeated `double` with tag 1. -/
def pointsField : Json :=
  .obj [("option", .str "repeated"), ("type", .str "double"), ("tag", .int 1)]

/-- The level with that one field. -/
def pointsSchema : Json :=
  .obj [("__messages", .obj []), ("__tags", .obj [("1", .str "a")]), ("a", pointsField)]

/-- The message with `n` zeros in it. -/
def pointsMsg (n : ℕ) : Json := .obj [("a", .arr (List.replicate n (.int 0)))]

theorem conforming_pointsSchema (gprotos : Json) : ConformingSchema gprotos pointsSchema := by
  refine ⟨fun level => level = pointsSchema, rfl, ?_⟩
  rintro level rfl
  refine ⟨⟨_, rfl⟩, _, rfl, fun key proto hkey => ?_⟩
  obtain ⟨rfl, rfl⟩ := isField_single hkey
  exact ⟨.inr (.inr rfl), ⟨1, by decide, by decide, rfl, rfl⟩, "double", rfl,
    fun hnone => absurd hnone (by decide)⟩

theorem valid_pointsMsg (gprotos : Json) (n : ℕ) : ValidMsg gprotos (pointsMsg n) pointsSchema := by
  have helems : ValidElems gprotos (List.replicate n (.int 0)) pointsSchema pointsField := by
    induction n with
    | zero => trivial
    | succ n ih =>
      rw [List.replicate_succ, ValidElems]
      exact ⟨⟨"double", rfl, .inl ⟨.double, rfl, .inr ⟨.inr rfl, 0, rfl⟩⟩⟩, ih⟩
  rw [pointsMsg, ValidMsg, ValidMembers, ValidMembers]
  refine ⟨by simp, ⟨pointsField, ⟨rfl, by decide, by decide⟩, ?_⟩, trivial⟩
  have hrepeated : fieldOption pointsField = some "repeated" := rfl
  rw [if_pos hrepeated, ValidArray]
  exact helems

/-- Three zeros just fit. -/
theorem scratchSuffices_three_zeros :
    ConformingSchema .null pointsSchema ∧ ValidMsg .null (pointsMsg 3) pointsSchema ∧
      ScratchSuffices zeroDtostr .null pointsSchema (pointsMsg 3) := by
  have hschema := conforming_pointsSchema .null
  have hmsg := valid_pointsMsg .null 3
  have hspare : spare zeroDtostr .null (pointsMsg 3) pointsSchema = 0 := by decide +kernel
  exact ⟨hschema, hmsg, (scratchSuffices_iff hschema hmsg).1.mpr fun _ => hspare.ge⟩

/-- Four do not: 15 characters, 34 bytes. -/
theorem not_scratchSuffices_four_zeros :
    ConformingSchema .null pointsSchema ∧ ValidMsg .null (pointsMsg 4) pointsSchema ∧
      ¬ ScratchSuffices zeroDtostr .null pointsSchema (pointsMsg 4) := by
  have hschema := conforming_pointsSchema .null
  have hmsg := valid_pointsMsg .null 4
  refine ⟨hschema, hmsg, fun h => ?_⟩
  have hlength : (doDump zeroDtostr (pointsMsg 4)).length = 15 := by decide +kernel
  have hspare : spare zeroDtostr .null (pointsMsg 4) pointsSchema = -4 := by decide +kernel
  have hnonneg := spare_nonneg_of_suffices hschema hmsg h (by
    rw [scratchSize, hlength]
    decide)
  rw [hspare] at hnonneg
  exact absurd hnonneg (by decide)

end Libpomelo
