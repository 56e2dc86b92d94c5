import Libpomelo.PbBounds
import Libpomelo.PbRoundtrip

/-!
# Where the round trip ends

Counts and lengths go out as 64-bit varints and come back through
`pb_decode_varint32`, which keeps the low half. So a packed array of `2 ^ 32`
elements or a nested message of `2 ^ 32` bytes is read back short, and what
follows is read out of step.

That this can never come out right again is an accounting argument. Whatever
bytes the decoder is given, the result it builds is worth at most the bytes it has
read (`Paid`), where a value is worth its own wire format; a value once stored is
kept or paid for twice. A message that was read short holds a wrong value at a
moment when nothing has been overpaid yet, and correcting it costs bytes that the
message does not have.
-/

namespace Libpomelo

open BinaryFloat (Datum double single)

/-! ## Bytes read for a number -/

/-- The loop of `pb_decode_varint`: what it adds to the number is at most as long as what it
read. -/
theorem varintRead_some {buf : Bytes} {t j d n : ℕ} {s s' : IStream} (hd : d < 128 ^ j)
    (hd' : d < 2 ^ 64) (h : varintRead buf t (7 * j) d s = (some n, s')) :
    n < 2 ^ 64 ∧ ∃ k, 0 < k ∧ n < 128 ^ (j + k) ∧ s'.bytesLeft + k = s.bytesLeft := by
  induction t generalizing j d s with
  | zero => simp [varintRead] at h
  | succ t ih =>
    rw [varintRead] at h
    split at h
    · simp at h
    · next bytes s₁ hread =>
      obtain ⟨-, hleft⟩ := pbRead_some hread
      have hpow : (128 : ℕ) ^ j = 2 ^ (7 * j) := by
        rw [show (128 : ℕ) = 2 ^ 7 from rfl, ← pow_mul]
      have hpow' : (128 : ℕ) ^ (j + 1) = 2 ^ (7 * j + 7) := by
        rw [show (128 : ℕ) = 2 ^ 7 from rfl, ← pow_mul]
        rfl
      set g := ((bytes.headD 0).toNat &&& 0x7f) <<< (7 * j) % 2 ^ 64
      have hg : g < 2 ^ (7 * j + 7) := by
        have hle : g ≤ ((bytes.headD 0).toNat &&& 0x7f) <<< (7 * j) := Nat.mod_le _ _
        have hlt : (bytes.headD 0).toNat &&& 0x7f < 128 := by
          rw [and_127]
          exact Nat.mod_lt _ (by decide)
        rw [Nat.shiftLeft_eq] at hle
        calc g ≤ _ := hle
          _ < 128 * 2 ^ (7 * j) := Nat.mul_lt_mul_of_pos_right hlt (by positivity)
          _ = 2 ^ (7 * j + 7) := by ring
      have hg' : g < 2 ^ 64 := Nat.mod_lt _ (by decide)
      have hor : d ||| g < 128 ^ (j + 1) := by
        rw [hpow']
        refine Nat.or_lt_two_pow (hd.trans_le ?_) hg
        rw [hpow]
        exact Nat.pow_le_pow_right (by decide) (by omega)
      have hor' : d ||| g < 2 ^ 64 := Nat.or_lt_two_pow hd' hg'
      simp only at h
      split at h
      · obtain ⟨hn, rfl⟩ := Prod.mk.inj h
        obtain rfl := Option.some.inj hn
        exact ⟨hor', 1, by decide, hor, hleft⟩
      · rw [show 7 * j + 7 = 7 * (j + 1) from by ring] at h
        obtain ⟨hlt, k, hk, hnk, hleft'⟩ := ih hor hor' h
        refine ⟨hlt, k + 1, by omega, ?_, by omega⟩
        rwa [Nat.add_right_comm, Nat.add_assoc] at hnk

/-- A number below `128 ^ k` has a text of at most `k` bytes. -/
theorem length_varintBytes_le {m k : ℕ} (hk : 0 < k) (hm : m < 2 ^ 64) (h : m < 128 ^ k) :
    (varintBytes m).length ≤ k := by
  rw [varintBytes_eq hm]
  exact Leb128.length_encode_le hk h

theorem pbDecodeVarint_some {buf : Bytes} {n : ℕ} {s s' : IStream}
    (h : pbDecodeVarint buf s = (some n, s')) :
    n < 2 ^ 64 ∧ ∃ k, 0 < k ∧ n < 128 ^ k ∧ s'.bytesLeft + k = s.bytesLeft := by
  obtain ⟨hn, k, hk, hnk, hleft⟩ := varintRead_some (j := 0) (by decide) (by decide) h
  rw [Nat.zero_add] at hnk
  exact ⟨hn, k, hk, hnk, hleft⟩

theorem pbDecodeVarint32_some {buf : Bytes} {n : ℕ} {s s' : IStream}
    (h : pbDecodeVarint32 buf s = (some n, s')) :
    n < 2 ^ 32 ∧ ∃ k, 0 < k ∧ n < 128 ^ k ∧ s'.bytesLeft + k = s.bytesLeft := by
  rw [pbDecodeVarint32] at h
  obtain ⟨hn, hs⟩ := Prod.mk.inj h
  obtain ⟨m, hm, rfl⟩ := Option.map_eq_some_iff.1 hn
  obtain ⟨-, k, hk, hmk, hleft⟩ := pbDecodeVarint_some (Prod.ext hm hs)
  exact ⟨Nat.mod_lt _ (by decide), k, hk, (Nat.mod_le _ _).trans_lt hmk, hleft⟩

/-! ## Accounts -/

section Accounts

variable {gprotos protos : Json}

/-- What some members are worth: the length of their wire format. -/
def worth (gprotos protos : Json) (acc : List (String × Json)) : ℕ :=
  (wireMembers gprotos acc protos).length

/-- Storing a member replaces what was there under its key. -/
theorem worth_setMember (key : String) (v : Json) (acc : List (String × Json)) :
    worth gprotos protos (setMember key v acc) +
        ((acc.lookup key).map fun w => (wireField gprotos key w protos).length).getD 0 =
      worth gprotos protos acc + (wireField gprotos key v protos).length := by
  induction acc with
  | nil => simp [worth, setMember, wireField, wireMembers]
  | cons kw acc ih =>
    obtain ⟨k, w⟩ := kw
    by_cases hk : k = key
    · subst hk
      simp only [worth, setMember, if_true, wireMembers_cons, List.length_append,
        List.lookup_cons_self, Option.map_some, Option.getD_some]
      omega
    · have hk' : (key == k) = false := beq_eq_false_iff_ne.2 (Ne.symm hk)
      simp only [worth, setMember, hk, if_false, wireMembers_cons, List.length_append,
        List.lookup_cons, hk'] at ih ⊢
      omega

/-- Repeated fields hold arrays. -/
def ArraysIn (protos : Json) (acc : List (String × Json)) : Prop :=
  ∀ key v proto, acc.lookup key = some v → jsonObjectGet (some protos) key = some proto →
    fieldOption proto = some "repeated" → ∃ ys, v = .arr ys

/-- Repeated fields stay arrays when one that is set becomes an array, too. -/
theorem ArraysIn.set {key : String} {v : Json} {acc : List (String × Json)}
    (h : ArraysIn protos acc)
    (hv : ∀ proto, jsonObjectGet (some protos) key = some proto →
      fieldOption proto = some "repeated" → ∃ ys, v = .arr ys) :
    ArraysIn protos (setMember key v acc) := by
  intro key' v' proto hlook hget hopt
  by_cases hk : key' = key
  · subst hk
    rw [lookup_setMember_self] at hlook
    obtain rfl := Option.some.inj hlook
    exact hv proto hget hopt
  · rw [lookup_setMember_of_ne hk] at hlook
    exact h key' v' proto hlook hget hopt

/-- The only free change of a stored value: more elements of an unpacked array. -/
def Grows (protos : Json) (key : String) (v v' : Json) : Prop :=
  v' = v ∨ ∃ proto ys zs, jsonObjectGet (some protos) key = some proto ∧
    fieldOption proto = some "repeated" ∧ fieldPacked proto = false ∧ v = .arr ys ∧
    v' = .arr (ys ++ zs)

theorem Grows.trans {key : String} {u v w : Json} (h₁ : Grows protos key u v)
    (h₂ : Grows protos key v w) : Grows protos key u w := by
  rcases h₁ with rfl | ⟨proto, ys, zs, hget, hopt, hpacked, rfl, rfl⟩
  · exact h₂
  rcases h₂ with rfl | ⟨-, ys', zs', -, -, -, hys, rfl⟩
  · exact .inr ⟨proto, ys, zs, hget, hopt, hpacked, rfl, rfl⟩
  · obtain rfl := Json.arr.inj hys
    exact .inr ⟨proto, ys, zs ++ zs', hget, hopt, hpacked, rfl, by rw [List.append_assoc]⟩

/-- `acc` became `acc'` for `n` bytes: it is worth at most that much more, and less
than that if a stored value was changed. -/
structure Paid (gprotos protos : Json) (acc acc' : List (String × Json)) (n : ℕ) : Prop where
  /-- repeated fields still hold arrays -/
  arrays : ArraysIn protos acc'
  /-- nothing is worth more than was read for it -/
  worth_le : worth gprotos protos acc' ≤ worth gprotos protos acc + n
  /-- a stored value stays, unless bytes are lost -/
  keeps : ∀ key v, acc.lookup key = some v →
    worth gprotos protos acc' < worth gprotos protos acc + n ∨
      ∃ v', acc'.lookup key = some v' ∧ Grows protos key v v'

theorem Paid.refl {acc : List (String × Json)} (h : ArraysIn protos acc) (n : ℕ) :
    Paid gprotos protos acc acc n :=
  ⟨h, Nat.le_add_right _ _, fun _ v hv => .inr ⟨v, hv, .inl rfl⟩⟩

/-- What is paid for in parts is paid for. -/
theorem Paid.trans {acc₁ acc₂ acc₃ : List (String × Json)} {m n : ℕ}
    (h₁ : Paid gprotos protos acc₁ acc₂ m) (h₂ : Paid gprotos protos acc₂ acc₃ n) :
    Paid gprotos protos acc₁ acc₃ (m + n) := by
  have hle₁ := h₁.worth_le
  have hle₂ := h₂.worth_le
  refine ⟨h₂.arrays, by omega, fun key v hv => ?_⟩
  rcases h₁.keeps key v hv with hlt | ⟨v', hv', hgrow⟩
  · exact .inl (by omega)
  rcases h₂.keeps key v' hv' with hlt | ⟨v'', hv'', hgrow'⟩
  · exact .inl (by omega)
  · exact .inr ⟨v'', hv'', hgrow.trans hgrow'⟩

/-- Paying more does no harm. -/
theorem Paid.mono {acc acc' : List (String × Json)} {m n : ℕ} (h : Paid gprotos protos acc acc' m)
    (hmn : m ≤ n) : Paid gprotos protos acc acc' n := by
  have hle := h.worth_le
  refine ⟨h.arrays, by omega, fun key v hv => ?_⟩
  rcases h.keeps key v hv with hlt | hkeep
  · exact .inl (by omega)
  · exact .inr hkeep

/-- Storing one value: paid if it is worth no more than was read, and if a value it
replaces either grows or costs something. -/
theorem Paid.set {acc : List (String × Json)} {key : String} {v : Json} {n : ℕ}
    (h : ArraysIn protos acc)
    (hv : ∀ proto, jsonObjectGet (some protos) key = some proto →
      fieldOption proto = some "repeated" → ∃ ys, v = .arr ys)
    (hcost : (wireField gprotos key v protos).length ≤
      ((acc.lookup key).map fun w => (wireField gprotos key w protos).length).getD 0 + n)
    (hkeep : ∀ w, acc.lookup key = some w →
      (wireField gprotos key v protos).length < (wireField gprotos key w protos).length + n ∨
        Grows protos key w v) :
    Paid gprotos protos acc (setMember key v acc) n := by
  have hset : worth gprotos protos (setMember key v acc) + _ = _ := worth_setMember key v acc
  refine ⟨h.set hv, by omega, fun key' w hw => ?_⟩
  by_cases hk : key' = key
  · subst hk
    rcases hkeep w hw with hlt | hgrow
    · rw [hw] at hset
      simp only [Option.map_some, Option.getD_some] at hset
      exact .inl (by omega)
    · exact .inr ⟨v, lookup_setMember_self .., hgrow⟩
  · exact .inr ⟨w, by rw [lookup_setMember_of_ne hk, hw], .inl rfl⟩

end Accounts

/-! ## One value -/

section Value

variable {buf : Bytes} {gprotos protos proto : Json} {s s' : IStream}

/-- The encoder undoes the zig-zag of the decoder. -/
theorem zigzag_unzigzag {n : ℕ} (h : n < 2 ^ 64) : zigzag (unzigzag n) = n := by
  unfold unzigzag
  rw [Nat.and_one_is_mod, Nat.shiftRight_eq_div_pow]
  unfold zigzag asUInt64
  split <;> split <;> omega

theorem asUInt64_asInt64 {n : ℕ} (h : n < 2 ^ 64) : asUInt64 (asInt64 n) = n := by
  unfold asInt64 asUInt64
  rw [Int.bmod_def]
  split <;> omega

/-- A length prefix is never longer than the varint that was read for it. -/
theorem length_wirePrefixed_le {w : Bytes} {n k : ℕ} (hn : n < 2 ^ 32) (hk : 0 < k)
    (hnk : n < 128 ^ k) (hw : w.length ≤ n) : (wirePrefixed w).length ≤ k + w.length := by
  have hmod : w.length % 2 ^ 64 = w.length := Nat.mod_eq_of_lt (by omega)
  have hlen : (varintBytes w.length).length ≤ k :=
    length_varintBytes_le hk (by omega) (by omega)
  rw [wirePrefixed, List.length_append, hmod]
  omega

theorem pbDecodeStringValue_some {text : Bytes}
    (h : pbDecodeStringValue buf s = .ok (text, s')) :
    s'.bytesLeft ≤ s.bytesLeft ∧ ∀ w : Bytes, w.length ≤ text.length →
      (wirePrefixed w).length + s'.bytesLeft ≤ s.bytesLeft := by
  unfold pbDecodeStringValue at h
  split at h
  · simp at h
  · next n s₁ hread =>
    obtain ⟨hn, k, hk, hnk, hleft⟩ := pbDecodeVarint32_some hread
    split at h
    · simp at h
    · split at h
      · simp at h
      · next hbody =>
        obtain ⟨rfl, rfl⟩ := Prod.mk.inj (Except.ok.inj h)
        obtain ⟨hlen, hleft'⟩ := pbRead_some hbody
        refine ⟨by omega, fun w hw => ?_⟩
        have := length_wirePrefixed_le hn hk hnk (hw.trans hlen)
        omega

/-- A scalar is worth at most the bytes it was read from. -/
theorem pbDecodeProto_scalar_some {dec : Json → Json → IStream → Dec} {key : Option String}
    {result r : Json} {type : String} {t : PbType} (htype : fieldType proto = some type)
    (ht : pbGetType type = some t)
    (h : pbDecodeProto buf gprotos proto protos dec key result s = .ok (r, s')) :
    ∃ vo : Option Json, r = putValue result key vo ∧ s'.bytesLeft ≤ s.bytesLeft ∧
      ∀ v, vo = some v → (wireScalar t v).length + s'.bytesLeft ≤ s.bytesLeft := by
  have htype' : jsonStringValue (jsonObjectGet (some proto) "type") = some type := htype
  simp only [pbDecodeProto, htype', ht] at h
  have hput : ∀ {p : Option (Option Json) × IStream}, putScalar result key p = .ok (r, s') →
      ∃ vo, p = (some vo, s') ∧ r = putValue result key vo := by
    rintro ⟨_ | vo, s₁⟩ hp
    · simp [putScalar] at hp
    · simp only [putScalar, Except.ok.injEq, Prod.mk.injEq] at hp
      exact ⟨vo, by rw [hp.2], hp.1.symm⟩
  cases t with
  | uInt32 =>
    obtain ⟨vo, hp, rfl⟩ := hput h
    obtain ⟨hmap, hs⟩ := Prod.mk.inj hp
    obtain ⟨n, hn, rfl⟩ := Option.map_eq_some_iff.1 hmap
    obtain ⟨hlt, k, hk, hnk, hleft⟩ := pbDecodeVarint_some (Prod.ext hn hs)
    refine ⟨_, rfl, by omega, fun v hv => ?_⟩
    obtain rfl := Option.some.inj hv
    have := length_varintBytes_le hk hlt hnk
    rw [wireScalar, asUInt64_asInt64 hlt]
    omega
  | int32 | sInt32 =>
    obtain ⟨vo, hp, rfl⟩ := hput h
    obtain ⟨hmap, hs⟩ := Prod.mk.inj hp
    obtain ⟨i, hi, rfl⟩ := Option.map_eq_some_iff.1 hmap
    obtain ⟨n, hn, rfl⟩ := Option.map_eq_some_iff.1 hi
    obtain ⟨hlt, k, hk, hnk, hleft⟩ := pbDecodeVarint_some (Prod.ext hn hs)
    refine ⟨_, rfl, by omega, fun v hv => ?_⟩
    obtain rfl := Option.some.inj hv
    have := length_varintBytes_le hk hlt hnk
    rw [wireScalar, zigzag_unzigzag hlt]
    omega
  | float | double =>
    obtain ⟨vo, hp, rfl⟩ := hput h
    obtain ⟨hmap, hs⟩ := Prod.mk.inj hp
    obtain ⟨x, hx, rfl⟩ := Option.map_eq_some_iff.1 hmap
    obtain ⟨bytes, hb, rfl⟩ := Option.map_eq_some_iff.1 hx
    obtain ⟨-, hleft⟩ := pbRead_some (Prod.ext hb hs)
    refine ⟨_, rfl, by omega, fun v hv => ?_⟩
    unfold jsonReal at hv
    split at hv
    · obtain rfl := Option.some.inj hv
      rw [wireScalar, length_leBytes]
      omega
    · simp at hv
  | string =>
    obtain ⟨⟨text, s₁⟩, hstr, hr⟩ := bind_eq_ok.1 h
    obtain ⟨rfl, rfl⟩ := Prod.mk.inj (Except.ok.inj hr)
    obtain ⟨hleft, hcost⟩ := pbDecodeStringValue_some hstr
    refine ⟨_, rfl, hleft, fun v hv => ?_⟩
    obtain ⟨str, rfl, htext⟩ := jsonString_text hv
    exact hcost _ (htext ▸ (List.takeWhile_prefix _).length_le)

end Value

/-! ## One field -/

/-- `__tags` has no other entries than the tags of the fields. -/
def TagsExact (protos : Json) : Prop :=
  ∀ tags text entry, jsonObjectGet (some protos) "__tags" = some tags →
    jsonObjectGet (some tags) text = some entry →
    ∃ key proto, ∃ n : ℕ, IsField protos key proto ∧
      jsonObjectGet (some proto) "tag" = some (.int n) ∧ text = decimal n ∧ entry = .str key

/-- A conforming schema whose levels all have exact tag tables. -/
def ExactSchema (gprotos protos : Json) : Prop :=
  ∃ P : Json → Prop, P protos ∧
    ∀ level, P level → ConformingLevel P gprotos level ∧ TagsExact level

section Field

variable {buf : Bytes} {gprotos protos proto : Json} {s s' : IStream}

theorem ExactSchema.conforming (h : ExactSchema gprotos protos) :
    ConformingSchema gprotos protos := by
  obtain ⟨P, hP, hclosed⟩ := h
  exact ⟨P, hP, fun level hlevel => (hclosed level hlevel).1⟩

theorem ExactSchema.tags (h : ExactSchema gprotos protos) : TagsExact protos := by
  obtain ⟨P, hP, hclosed⟩ := h
  exact (hclosed protos hP).2

theorem ExactSchema.sub {key type : String} {sub : Json} (h : ExactSchema gprotos protos)
    (hkey : IsField protos key proto) (htype : fieldType proto = some type)
    (hnone : pbGetType type = none) (hres : resolveType gprotos protos type = some sub) :
    ExactSchema gprotos sub := by
  obtain ⟨P, hP, hclosed⟩ := h
  obtain ⟨-, tags, -, hfields⟩ := (hclosed protos hP).1
  obtain ⟨type', htype', hsub⟩ := (hfields key proto hkey).type
  obtain rfl : type = type' := Option.some.inj (htype.symm.trans htype')
  obtain ⟨sub', hres', hPsub⟩ := hsub hnone
  obtain rfl : sub = sub' := Option.some.inj (hres.symm.trans hres')
  exact ⟨P, hPsub, hclosed⟩

/-- The decoder pays for all it stores, at every level. -/
def Frugal (buf : Bytes) (gprotos : Json) (turns : ℕ) : Prop :=
  ∀ protos acc s r s', ExactSchema gprotos protos → ArraysIn protos acc →
    pbDecode buf gprotos turns protos (.obj acc) s = .ok (r, s') →
    ∃ acc', r = .obj acc' ∧ s'.bytesLeft ≤ s.bytesLeft ∧
      Paid gprotos protos acc acc' (s.bytesLeft - s'.bytesLeft)

theorem arraysIn_nil : ArraysIn protos [] := by
  intro key v proto h
  simp at h

/-- A nested message is worth at most the bytes it was read from. -/
theorem pbDecodeSubmessage_some {turns : ℕ} {sub r : Json} (hfrugal : Frugal buf gprotos turns)
    (hsub : ExactSchema gprotos sub)
    (h : pbDecodeSubmessage buf (pbDecode buf gprotos turns sub (.obj [])) s = .ok (r, s')) :
    (wirePrefixed (wireMsg gprotos r sub)).length + s'.bytesLeft ≤ s.bytesLeft ∧
      (wireMsg gprotos r sub).length < 2 ^ 32 := by
  obtain ⟨size, s₁, s₂, hread, hroom, hdec, rfl⟩ := pbDecodeSubmessage_eq_ok.1 h
  obtain ⟨hn, k, hk, hnk, hleft⟩ := pbDecodeVarint32_some hread
  obtain ⟨acc, rfl, hle, hpaid⟩ := hfrugal sub [] _ _ _ hsub arraysIn_nil hdec
  have hworth := hpaid.worth_le
  simp only [worth, wireMembers, List.length_nil] at hworth hle
  have hlen : (wireMsg gprotos (.obj acc) sub).length ≤ size := by
    rw [wireMsg]
    omega
  have := length_wirePrefixed_le hn hk hnk hlen
  exact ⟨by simp only; omega, by omega⟩

/-- A value of a single field: nothing is stored, or something worth at most the bytes
it was read from. -/
theorem pbDecodeProto_member_some {turns : ℕ} {key : String} {acc : List (String × Json)}
    {r : Json} (hfrugal : Frugal buf gprotos turns) (hexact : ExactSchema gprotos protos)
    (hkey : IsField protos key proto)
    (h : pbDecodeProto buf gprotos proto protos (pbDecode buf gprotos turns) (some key) (.obj acc) s
      = .ok (r, s')) :
    s'.bytesLeft ≤ s.bytesLeft ∧ (r = .obj acc ∨ ∃ v, r = .obj (setMember key v acc) ∧
      (wireValue gprotos protos proto v fun level => wireMsg gprotos v level).length +
        s'.bytesLeft ≤ s.bytesLeft) := by
  obtain ⟨⟨messages, hmsgs⟩, tags, -, hfields⟩ := hexact.conforming.level
  obtain ⟨-, -, type, htype, hres⟩ := hfields key proto hkey
  cases ht : pbGetType type with
  | some t =>
    obtain ⟨vo, rfl, hleft, hcost⟩ := pbDecodeProto_scalar_some htype ht h
    refine ⟨hleft, ?_⟩
    cases vo with
    | none => exact .inl rfl
    | some v =>
      refine .inr ⟨v, rfl, ?_⟩
      simpa only [wireValue, htype, ht] using hcost v rfl
  | none =>
    obtain ⟨sub, hres, -⟩ := hres ht
    have htype' : jsonStringValue (jsonObjectGet (some proto) "type") = some type := htype
    have hres' := hres
    simp only [resolveType, hmsgs, Option.bind_some] at hres'
    simp only [pbDecodeProto, htype', ht, hmsgs, hres'] at h
    obtain ⟨⟨v, s₁⟩, hsub, hr⟩ := bind_eq_ok.1 h
    obtain ⟨rfl, rfl⟩ := Prod.mk.inj (Except.ok.inj hr)
    obtain ⟨hcost, -⟩ := pbDecodeSubmessage_some hfrugal (hexact.sub hkey htype ht hres) hsub
    refine ⟨(Nat.le_add_left _ _).trans hcost, .inr ⟨v, rfl, ?_⟩⟩
    simpa only [wireValue, htype, ht, hres] using hcost

/-- A single field is paid for, its tag included. -/
theorem paid_single {turns : ℕ} {key : String} {acc : List (String × Json)} {r : Json}
    (hfrugal : Frugal buf gprotos turns) (hexact : ExactSchema gprotos protos)
    (hkey : IsField protos key proto) (hopt : fieldOption proto ≠ some "repeated")
    (harr : ArraysIn protos acc)
    (h : pbDecodeProto buf gprotos proto protos (pbDecode buf gprotos turns) (some key) (.obj acc) s
      = .ok (r, s')) :
    ∃ acc', r = .obj acc' ∧ s'.bytesLeft ≤ s.bytesLeft ∧
      Paid gprotos protos acc acc' ((wireTag proto).length + (s.bytesLeft - s'.bytesLeft)) := by
  obtain ⟨hleft, rfl | ⟨v, rfl, hcost⟩⟩ := pbDecodeProto_member_some hfrugal hexact hkey h
  · exact ⟨acc, rfl, hleft, Paid.refl harr _⟩
  · refine ⟨_, rfl, hleft, Paid.set harr ?_ ?_ ?_⟩
    · intro proto' hget hopt'
      obtain rfl : proto = proto' := Option.some.inj (hkey.1.symm.trans hget)
      exact absurd hopt' hopt
    · rw [wireField_single hkey.1 hopt, List.length_append]
      omega
    · intro w _
      have hpos := wireTag_length_pos proto
      rw [wireField_single hkey.1 hopt, wireField_single hkey.1 hopt, List.length_append,
        List.length_append]
      exact .inl (by omega)

theorem wireElems_append (xs ys : List Json) :
    wireElems gprotos (xs ++ ys) protos proto =
      wireElems gprotos xs protos proto ++ wireElems gprotos ys protos proto := by
  induction xs with
  | nil => simp [wireElems]
  | cons x xs ih => simp only [List.cons_append, wireElems, ih, List.append_assoc]

/-- The elements of a packed array are worth at most the bytes they were read from. -/
theorem pbDecodePacked_some {dec : Json → Json → IStream → Dec} {key type : String} {t : PbType}
    {size : ℕ} {ys : List Json} {r : Json} (htype : fieldType proto = some type)
    (ht : pbGetType type = some t) (hpacked : fieldPacked proto = true)
    (h : pbDecodePacked (pbDecodeProto buf gprotos proto protos dec (some key)) size (.arr ys) s =
      .ok (r, s')) :
    ∃ zs, r = .arr (ys ++ zs) ∧ zs.length ≤ size ∧
      (wireElems gprotos zs protos proto).length + s'.bytesLeft ≤ s.bytesLeft := by
  induction size generalizing ys s with
  | zero =>
    obtain ⟨rfl, rfl⟩ := Prod.mk.inj (Except.ok.inj h)
    exact ⟨[], by simp, le_rfl, by simp [wireElems]⟩
  | succ size ih =>
    obtain ⟨⟨array, s₁⟩, hval, hrest⟩ := bind_eq_ok.1 h
    obtain ⟨vo, rfl, hleft, hcost⟩ := pbDecodeProto_scalar_some htype ht hval
    cases vo with
    | none =>
      obtain ⟨zs, rfl, hlen, hzs⟩ := ih hrest
      exact ⟨zs, rfl, by omega, by omega⟩
    | some v =>
      obtain ⟨zs, rfl, hlen, hzs⟩ := ih hrest
      refine ⟨v :: zs, by simp, by simpa using hlen, ?_⟩
      have := hcost v rfl
      simp only [wireElems, hpacked, if_true, List.nil_append, wireValue, htype, ht,
        List.length_append]
      omega

/-- A packed array that grows by `b` elements, with a count of `k` bytes, costs more
than it gains when it was there before. -/
theorem length_varintBytes_add_le {a b k : ℕ} (hb : b < 128 ^ k) (hk : 0 < k) :
    (varintBytes ((a + b) % 2 ^ 64)).length ≤ (varintBytes (a % 2 ^ 64)).length + k := by
  have ha : a % 2 ^ 64 < 128 ^ (varintBytes (a % 2 ^ 64)).length := by
    rw [varintBytes_eq (Nat.mod_lt _ (by decide))]
    exact Leb128.lt_pow_length_encode _
  apply length_varintBytes_le (by omega) (Nat.mod_lt _ (by decide))
  have hpos : 0 < (varintBytes (a % 2 ^ 64)).length := by
    rw [varintBytes_eq (Nat.mod_lt _ (by decide))]
    exact Leb128.length_encode_pos _
  set l := (varintBytes (a % 2 ^ 64)).length
  have hl : 128 ≤ 128 ^ l := Nat.le_self_pow hpos.ne' 128
  have hk' : 128 ≤ 128 ^ k := Nat.le_self_pow hk.ne' 128
  have hsum : 128 ^ l + 128 ^ k ≤ 128 ^ (l + k) := by
    rw [pow_add]
    exact Nat.add_le_mul (by omega) (by omega)
  have hmod : (a + b) % 2 ^ 64 ≤ a % 2 ^ 64 + b := by
    rw [Nat.add_mod]
    exact (Nat.mod_le _ _).trans (Nat.add_le_add_left (Nat.mod_le _ _) _)
  omega

/-- The array a repeated field holds, empty if it is not there. -/
theorem ArraysIn.getD {acc : List (String × Json)} {key : String} (harr : ArraysIn protos acc)
    (hget : jsonObjectGet (some protos) key = some proto)
    (hopt : fieldOption proto = some "repeated") :
    ∃ ys, (acc.lookup key).getD (.arr []) = .arr ys ∧
      (acc.lookup key = none ∧ ys = [] ∨ acc.lookup key = some (.arr ys)) := by
  cases hlook : acc.lookup key with
  | none => exact ⟨[], rfl, .inl ⟨rfl, rfl⟩⟩
  | some v =>
    obtain ⟨ys, rfl⟩ := harr key v proto hlook hget hopt
    exact ⟨ys, rfl, .inr rfl⟩

/-- A packed array grows by fewer than `2 ^ 32` elements, read behind a count of `k`
bytes. -/
theorem pbDecodeArray_packed_some {dec : Json → Json → IStream → Dec} {key : String}
    {acc : List (String × Json)} {ys : List Json} {r : Json} (hexact : ExactSchema gprotos protos)
    (hkey : IsField protos key proto) (hpacked : fieldPacked proto = true)
    (hys : (acc.lookup key).getD (.arr []) = .arr ys)
    (h : pbDecodeArray buf gprotos proto protos dec key (.obj acc) s = .ok (r, s')) :
    ∃ zs k, r = .obj (setMember key (.arr (ys ++ zs)) acc) ∧ zs.length < 2 ^ 32 ∧ 0 < k ∧
      zs.length < 128 ^ k ∧
      k + (wireElems gprotos zs protos proto).length + s'.bytesLeft ≤ s.bytesLeft := by
  obtain ⟨-, tags, -, hfields⟩ := hexact.conforming.level
  obtain ⟨-, -, type, htype, -⟩ := hfields key proto hkey
  have htype' : jsonStringValue (jsonObjectGet (some proto) "type") = some type := htype
  have hpacked' : pbIsPacked type = true := by rwa [fieldPacked_eq htype] at hpacked
  obtain ⟨t, ht⟩ := exists_of_pbIsPacked hpacked'
  simp only [pbDecodeArray, htype', hpacked', if_true, jsonObjectGet_obj, hys] at h
  obtain ⟨⟨array, s₁⟩, hloop, hr⟩ := bind_eq_ok.1 h
  obtain ⟨rfl, rfl⟩ : jsonObjectSet (.obj acc) key (some array) = r ∧ s₁ = s' :=
    pure_pair_eq_ok.1 hr
  split at hloop
  · simp at hloop
  · next size s₂ hread =>
    obtain ⟨hn, k, hk, hnk, hleft⟩ := pbDecodeVarint32_some hread
    obtain ⟨zs, rfl, hlen, hcost⟩ := pbDecodePacked_some htype ht hpacked hloop
    exact ⟨zs, k, rfl, by omega, hk, by omega, by omega⟩

/-- A packed array is paid for, its tag included. -/
theorem paid_packed {dec : Json → Json → IStream → Dec} {key : String}
    {acc : List (String × Json)} {r : Json} (hexact : ExactSchema gprotos protos)
    (hkey : IsField protos key proto) (hopt : fieldOption proto = some "repeated")
    (hpacked : fieldPacked proto = true) (harr : ArraysIn protos acc)
    (h : pbDecodeArray buf gprotos proto protos dec key (.obj acc) s = .ok (r, s')) :
    ∃ acc', r = .obj acc' ∧ s'.bytesLeft ≤ s.bytesLeft ∧
      Paid gprotos protos acc acc' ((wireTag proto).length + (s.bytesLeft - s'.bytesLeft)) := by
  obtain ⟨ys, hys, hlook⟩ := harr.getD hkey.1 hopt
  obtain ⟨zs, k, rfl, -, hk, hlen, hcost⟩ := pbDecodeArray_packed_some hexact hkey hpacked hys h
  have hadd : (varintBytes ((ys.length + zs.length) % 2 ^ 64)).length ≤
      (varintBytes (ys.length % 2 ^ 64)).length + k :=
    length_varintBytes_add_le hlen hk
  have hnew : (wireField gprotos key (.arr (ys ++ zs)) protos).length =
      (wireTag proto).length + (varintBytes ((ys.length + zs.length) % 2 ^ 64)).length +
        (wireElems gprotos ys protos proto).length +
        (wireElems gprotos zs protos proto).length := by
    simp only [wireField_repeated hkey.1 hopt, hpacked, if_true, wireElems_append,
      List.length_append]
    omega
  have hold : (wireField gprotos key (.arr ys) protos).length =
      (wireTag proto).length + (varintBytes (ys.length % 2 ^ 64)).length +
        (wireElems gprotos ys protos proto).length := by
    simp only [wireField_repeated hkey.1 hopt, hpacked, if_true, List.length_append]
  have hpos := wireTag_length_pos proto
  refine ⟨_, rfl, by omega, Paid.set harr (fun _ _ _ => ⟨_, rfl⟩) ?_ ?_⟩
  · rcases hlook with ⟨hnone, rfl⟩ | hsome
    · -- a new array: the count that was read is at least the number of elements
      have hcount : (varintBytes (zs.length % 2 ^ 64)).length ≤ k :=
        length_varintBytes_le hk (Nat.mod_lt _ (by decide)) ((Nat.mod_le _ _).trans_lt hlen)
      simp only [List.length_nil, Nat.zero_add, wireElems] at hnew
      rw [hnone, hnew]
      simp only [Option.map_none, Option.getD_none]
      omega
    · rw [hsome, hnew]
      simp only [Option.map_some, Option.getD_some, hold]
      omega
  · intro w hw
    rcases hlook with ⟨hnone, -⟩ | hsome
    · rw [hnone] at hw
      simp at hw
    · obtain rfl : Json.arr ys = w := Option.some.inj (hsome.symm.trans hw)
      exact .inl (by omega)

/-- One element of an unpacked array is paid for, its tag included. -/
theorem paid_unpacked {turns : ℕ} {key : String} {acc : List (String × Json)} {r : Json}
    (hfrugal : Frugal buf gprotos turns) (hexact : ExactSchema gprotos protos)
    (hkey : IsField protos key proto) (hopt : fieldOption proto = some "repeated")
    (hpacked : fieldPacked proto = false) (harr : ArraysIn protos acc)
    (h : pbDecodeArray buf gprotos proto protos (pbDecode buf gprotos turns) key (.obj acc) s =
      .ok (r, s')) :
    ∃ acc', r = .obj acc' ∧ s'.bytesLeft ≤ s.bytesLeft ∧
      Paid gprotos protos acc acc' ((wireTag proto).length + (s.bytesLeft - s'.bytesLeft)) := by
  obtain ⟨⟨messages, hmsgs⟩, tags, -, hfields⟩ := hexact.conforming.level
  obtain ⟨-, -, type, htype, hres⟩ := hfields key proto hkey
  have htype' : jsonStringValue (jsonObjectGet (some proto) "type") = some type := htype
  have hpacked' : pbIsPacked type = false := by rwa [fieldPacked_eq htype] at hpacked
  obtain ⟨ys, hys, hlook⟩ := harr.getD hkey.1 hopt
  -- whatever was appended is worth at most the bytes it was read from
  have hstep : ∃ zs, r = .obj (setMember key (.arr (ys ++ zs)) acc) ∧
      s'.bytesLeft ≤ s.bytesLeft ∧ (wireElems gprotos zs protos proto).length ≤
        (wireTag proto).length + (s.bytesLeft - s'.bytesLeft) := by
    simp only [pbDecodeArray, htype', hpacked', Bool.false_eq_true, if_false, jsonObjectGet_obj,
      hys] at h
    obtain ⟨⟨array, s₁⟩, hval, hr⟩ := bind_eq_ok.1 h
    obtain ⟨rfl, rfl⟩ : jsonObjectSet (.obj acc) key (some array) = r ∧ s₁ = s' :=
      pure_pair_eq_ok.1 hr
    cases ht : pbGetType type with
    | none =>
      obtain ⟨sub, hres, -⟩ := hres ht
      have hres' := hres
      simp only [resolveType, hmsgs, Option.bind_some] at hres'
      simp only [ht, reduceCtorEq, if_false] at hval
      obtain ⟨⟨v, s₂⟩, hproto, hv⟩ := bind_eq_ok.1 hval
      obtain ⟨rfl, rfl⟩ : jsonArrayAppend (.arr ys) (some v) = array ∧ s₂ = s₁ :=
        pure_pair_eq_ok.1 hv
      simp only [pbDecodeProto, htype', ht, hmsgs, hres'] at hproto
      obtain ⟨hcost, -⟩ := pbDecodeSubmessage_some hfrugal (hexact.sub hkey htype ht hres) hproto
      refine ⟨[v], rfl, by omega, ?_⟩
      simp only [wireElems, hpacked, Bool.false_eq_true, if_false, wireValue, htype, ht, hres,
        List.length_append, List.append_nil]
      omega
    | some t =>
      obtain rfl : t = .string := by
        cases t <;> simp [pbIsPacked, ht] at hpacked' ⊢
      simp only [ht, if_true] at hval
      obtain ⟨vo, rfl, hleft, hcost⟩ := pbDecodeProto_scalar_some htype ht hval
      cases vo with
      | none => exact ⟨[], by simp [putValue, jsonIsObject, jsonArrayAppend, jsonObjectSet], hleft,
          by simp [wireElems]⟩
      | some v =>
        have := hcost v rfl
        refine ⟨[v], rfl, hleft, ?_⟩
        simp only [wireElems, hpacked, Bool.false_eq_true, if_false, wireValue, htype, ht,
          List.length_append, List.append_nil]
        omega
  obtain ⟨zs, rfl, hleft, hcost⟩ := hstep
  have hfield : ∀ xs, (wireField gprotos key (.arr xs) protos).length =
      (wireElems gprotos xs protos proto).length := by
    intro xs
    simp only [wireField_repeated hkey.1 hopt, hpacked, Bool.false_eq_true, if_false,
      List.nil_append]
  refine ⟨_, rfl, hleft, Paid.set harr (fun _ _ _ => ⟨_, rfl⟩) ?_ ?_⟩
  · rw [hfield, wireElems_append, List.length_append]
    rcases hlook with ⟨hnone, rfl⟩ | hsome
    · simp only [wireElems, List.length_nil]
      omega
    · rw [hsome]
      simp only [Option.map_some, Option.getD_some, hfield]
      omega
  · intro w hw
    rcases hlook with ⟨hnone, -⟩ | hsome
    · rw [hnone] at hw
      simp at hw
    · obtain rfl : Json.arr ys = w := Option.some.inj (hsome.symm.trans hw)
      exact .inr (.inr ⟨proto, ys, zs, hkey.1, hopt, hpacked, rfl, rfl⟩)

/-- The tag of a field is paid for, whatever wire type and padding came with it. -/
theorem pbDecodeTag_some {n : ℕ} (hn : n < 2 ^ 29)
    (htag : jsonObjectGet (some proto) "tag" = some (.int n))
    (h : pbDecodeTag buf s = (.tag n, s')) :
    (wireTag proto).length + s'.bytesLeft ≤ s.bytesLeft := by
  unfold pbDecodeTag at h
  split at h
  · next hread =>
    split at h <;> simp at h
  · next temp s₁ hread =>
    obtain ⟨-, k, hk, hnk, hleft⟩ := pbDecodeVarint32_some hread
    split at h
    · simp at h
    · obtain ⟨hkey, rfl⟩ := Prod.mk.inj h
      have hshift : temp >>> 3 = n := TagResult.tag.inj hkey
      rw [Nat.shiftRight_eq_div_pow] at hshift
      have hw := pbGetConstantType_lt ((fieldType proto).getD "")
      have hcvt : cvtUInt32 (jsonNumberValue (jsonObjectGet (some proto) "tag")) = n := by
        rw [htag]
        exact cvtUInt32_int (by omega)
      -- numbers that differ in the wire type only need the same number of groups
      have hpow : ∃ c, (128 : ℕ) ^ k = 8 * c := ⟨16 * 128 ^ (k - 1), by
        obtain ⟨j, rfl⟩ : ∃ j, k = j + 1 := ⟨k - 1, by omega⟩
        rw [Nat.add_sub_cancel, pow_succ]
        omega⟩
      obtain ⟨c, hc⟩ := hpow
      have hlen : (wireTag proto).length ≤ k := by
        rw [wireTag, hcvt, tagKey_eq hw hn, Nat.mod_eq_of_lt (by omega)]
        exact length_varintBytes_le hk (by omega) (by omega)
      omega

/-- A turn of the loop that goes on has read and paid for one field. -/
theorem pbDecode_turn_some {turns : ℕ} {acc : List (String × Json)} {r : Json}
    (hfrugal : Frugal buf gprotos turns) (hexact : ExactSchema gprotos protos)
    (harr : ArraysIn protos acc)
    (h : pbDecode buf gprotos (turns + 1) protos (.obj acc) s = .ok (r, s')) :
    (r = .obj acc ∧ s'.bytesLeft ≤ s.bytesLeft) ∨
      ∃ acc₁ s₁, s₁.bytesLeft ≤ s.bytesLeft ∧
        Paid gprotos protos acc acc₁ (s.bytesLeft - s₁.bytesLeft) ∧
        pbDecode buf gprotos turns protos (.obj acc₁) s₁ = .ok (r, s') := by
  rw [pbDecode] at h
  split at h
  · obtain ⟨rfl, rfl⟩ := Prod.mk.inj (Except.ok.inj h)
    exact .inl ⟨rfl, le_rfl⟩
  split at h
  · next s₁ htag =>
    obtain ⟨rfl, rfl⟩ := Prod.mk.inj (Except.ok.inj h)
    refine .inl ⟨rfl, ?_⟩
    have hs : s₁ = (pbDecodeVarint32 buf s).2 := by
      unfold pbDecodeTag at htag
      split at htag
      all_goals
        next hread =>
        rw [hread]
        exact (Prod.mk.inj htag).2.symm
    rw [hs]
    exact pbDecodeVarint32_within.left_le
  · simp at h
  · next n s₁ htag =>
    obtain ⟨⟨r₂, s₂⟩, hfield, hrest⟩ := bind_eq_ok.1 h
    unfold pbDecodeField at hfield
    split at hfield
    · simp at hfield
    next tags htags =>
    split at hfield
    · simp at hfield
    next entry hentry =>
    obtain ⟨key, proto, m, hkey, hm, htext, rfl⟩ := hexact.tags tags _ _ htags hentry
    obtain rfl := decimal_injective htext
    obtain ⟨-, tags', -, hfields⟩ := hexact.conforming.level
    obtain ⟨hopts, ⟨m', -, hlt, hm', -⟩, -⟩ := hfields key proto hkey
    obtain rfl : n = m' := by
      have := Option.some.inj (hm.symm.trans hm')
      simpa using this
    have hcost := pbDecodeTag_some hlt hm htag
    simp only [jsonStringValue_str, hkey.1] at hfield
    have hpaid : ∃ acc₂, r₂ = .obj acc₂ ∧ s₂.bytesLeft ≤ s₁.bytesLeft ∧
        Paid gprotos protos acc acc₂
          ((wireTag proto).length + (s₁.bytesLeft - s₂.bytesLeft)) := by
      by_cases hopt : fieldOption proto = some "repeated"
      · have hopt' : jsonStringValue (jsonObjectGet (some proto) "option") = some "repeated" := hopt
        simp only [hopt', String.reduceEq, or_self, if_false, if_true] at hfield
        cases hpacked : fieldPacked proto with
        | true => exact paid_packed hexact hkey hopt hpacked harr hfield
        | false => exact paid_unpacked hfrugal hexact hkey hopt hpacked harr hfield
      · obtain ⟨option, hoption, hor⟩ : ∃ option,
            jsonStringValue (jsonObjectGet (some proto) "option") = some option ∧
              (option = "optional" ∨ option = "required") := by
          rcases hopts with ho | ho | ho
          · exact ⟨_, ho, .inr rfl⟩
          · exact ⟨_, ho, .inl rfl⟩
          · exact absurd ho hopt
        simp only [hoption, hor, if_true] at hfield
        exact paid_single hfrugal hexact hkey hopt harr hfield
    obtain ⟨acc₂, rfl, hleft, hpaid⟩ := hpaid
    exact .inr ⟨acc₂, s₂, by omega, hpaid.mono (by omega), hrest⟩

/-- **The decoder pays for all it stores**, on any bytes. -/
theorem frugal (buf : Bytes) (gprotos : Json) (turns : ℕ) : Frugal buf gprotos turns := by
  induction turns with
  | zero =>
    intro protos acc s r s' _ harr h
    rw [pbDecode] at h
    split at h
    · obtain ⟨rfl, rfl⟩ := Prod.mk.inj (Except.ok.inj h)
      exact ⟨acc, rfl, le_rfl, Paid.refl harr _⟩
    · simp at h
  | succ turns ih =>
    intro protos acc s r s' hexact harr h
    rcases pbDecode_turn_some ih hexact harr h with ⟨rfl, hleft⟩ | ⟨acc₁, s₁, hleft, hpaid, hrest⟩
    · exact ⟨acc, rfl, hleft, Paid.refl harr _⟩
    · obtain ⟨acc', rfl, hleft', hpaid'⟩ := ih protos acc₁ s₁ r s' hexact hpaid.arrays hrest
      exact ⟨acc', rfl, by omega, (hpaid.trans hpaid').mono (by omega)⟩

end Field

/-! ## Stripping changes no byte -/

section Strip

variable {gprotos protos proto : Json}

theorem wireMembers_append (xs ys : List (String × Json)) :
    wireMembers gprotos (xs ++ ys) protos =
      wireMembers gprotos xs protos ++ wireMembers gprotos ys protos := by
  induction xs with
  | nil => simp [wireMembers]
  | cons x xs ih =>
    obtain ⟨key, v⟩ := x
    rw [List.cons_append, wireMembers_cons, wireMembers_cons, ih, List.append_assoc]

theorem wireValue_strip {v : Json}
    (ih : ∀ level, wireMsg gprotos (stripMsg gprotos v level) level = wireMsg gprotos v level) :
    (wireValue gprotos protos proto
        (stripValue gprotos protos proto v fun level => stripMsg gprotos v level) fun level =>
        wireMsg gprotos
          (stripValue gprotos protos proto v fun level => stripMsg gprotos v level) level) =
      wireValue gprotos protos proto v fun level => wireMsg gprotos v level := by
  unfold wireValue
  split
  · rfl
  · next type htype =>
    split
    · next t ht => rw [stripValue_scalar htype ht]
    · next hnone =>
      split
      · rfl
      · next level hres =>
        rw [stripValue_message htype hnone hres]
        simp only [ih]

theorem wireElems_strip {xs : List Json}
    (ih : ∀ x ∈ xs, ∀ level,
      wireMsg gprotos (stripMsg gprotos x level) level = wireMsg gprotos x level) :
    wireElems gprotos (stripElems gprotos xs protos proto) protos proto =
      wireElems gprotos xs protos proto := by
  induction xs with
  | nil => simp [stripElems]
  | cons x xs ihxs =>
    rw [stripElems, wireElems, wireElems, wireValue_strip (ih x (List.mem_cons_self ..)),
      ihxs fun y hy => ih y (List.mem_cons_of_mem _ hy)]

theorem length_stripElems (xs : List Json) :
    (stripElems gprotos xs protos proto).length = xs.length := by
  induction xs with
  | nil => rfl
  | cons x xs ih => rw [stripElems, List.length_cons, List.length_cons, ih]

theorem wireMembers_strip {kvs : List (String × Json)}
    (ih : ∀ v, sizeOf v < sizeOf (Json.obj kvs) → ∀ level,
      wireMsg gprotos (stripMsg gprotos v level) level = wireMsg gprotos v level) :
    wireMembers gprotos (stripMembers gprotos kvs protos) protos =
      wireMembers gprotos kvs protos := by
  induction kvs with
  | nil => simp [stripMembers]
  | cons kv kvs ihkvs =>
    obtain ⟨key, v⟩ := kv
    have hv : sizeOf v < sizeOf (Json.obj ((key, v) :: kvs)) :=
      sizeOf_lt_of_mem_obj (List.mem_cons_self ..)
    have htail := ihkvs fun w hw => ih w (by
      simp only [Json.obj.sizeOf_spec, List.cons.sizeOf_spec] at hw ⊢
      omega)
    rw [stripMembers_cons, wireMembers_append, htail, wireMembers_cons]
    congr 1
    cases hget : jsonObjectGet (some protos) key with
    | none => simp [stripField, stripMembers, wireField, wireMembers, hget]
    | some proto =>
      by_cases hopt : fieldOption proto = some "repeated"
      · cases v with
        | arr xs =>
          have hxs : wireElems gprotos (stripElems gprotos xs protos proto) protos proto =
              wireElems gprotos xs protos proto :=
            wireElems_strip fun x hx => ih x ((sizeOf_lt_of_mem_arr hx).trans hv)
          cases hpacked : fieldPacked proto with
          | true =>
            have hfield : wireField gprotos key (.arr (stripElems gprotos xs protos proto)) protos =
              _ := wireField_repeated hget hopt
            rw [hxs, length_stripElems] at hfield
            rw [stripField_packed hget hopt hpacked, wireField_repeated hget hopt]
            exact hfield
          | false =>
            rw [stripField_unpacked hget hopt hpacked, wireField_repeated hget hopt, ← hxs]
            cases hempty : stripElems gprotos xs protos proto with
            | nil => simp [arrayMember, wireMembers, wireElems, hpacked]
            | cons y ys =>
              have hfield : wireField gprotos key (.arr (y :: ys)) protos = _ :=
                wireField_repeated hget hopt
              simpa [arrayMember, wireField, hpacked] using hfield
        | _ =>
          simp [stripField, stripMembers, stripArray, wireField, wireMembers, wireArray, hget, hopt]
      · rw [stripField_single hget hopt, wireField_single hget hopt, ← wireValue_strip (ih v hv)]
        exact wireField_single hget hopt

/-- A message and its stripped form have the same bytes. -/
theorem wireMsg_strip (v level : Json) :
    wireMsg gprotos (stripMsg gprotos v level) level = wireMsg gprotos v level := by
  induction v using (measure (sizeOf : Json → ℕ)).wf.induction generalizing level with
  | _ v ih =>
    cases v with
    | obj kvs =>
      rw [stripMsg, wireMsg, wireMsg]
      exact wireMembers_strip fun w hw lvl => ih w hw lvl
    | _ => rfl

end Strip

/-! ## Reading short is never made good -/

section Short

variable {buf : Bytes} {gprotos protos proto v : Json} {s s' : IStream}

/-- If `v` comes back from its own bytes, its counts and lengths fit. -/
def FitsBack (gprotos v : Json) : Prop :=
  ∀ level, ExactSchema gprotos level → ConformsMsg gprotos level v →
    ∀ (buf : Bytes) (s s' : IStream) (turns : ℕ), At buf s (wireMsg gprotos v level) →
    s.bytesLeft = (wireMsg gprotos v level).length → s.bytesLeft ≤ turns →
    pbDecode buf gprotos turns level (.obj []) s = .ok (stripMsg gprotos v level, s') →
    FitsMsg gprotos v level

/-- A nested message that comes back right was not read short. -/
theorem fits_of_submessage {turns : ℕ} {sub : Json} (hexact : ExactSchema gprotos sub)
    (hmsg : ConformsMsg gprotos sub v) (ih : FitsBack gprotos v)
    (hat : At buf s (wirePrefixed (wireMsg gprotos v sub))) (hturns : s.bytesLeft ≤ turns)
    (h : pbDecodeSubmessage buf (pbDecode buf gprotos turns sub (.obj [])) s =
      .ok (stripMsg gprotos v sub, s')) :
    (wireMsg gprotos v sub).length < 2 ^ 32 ∧ FitsMsg gprotos v sub := by
  have hlen := (pbDecodeSubmessage_some (frugal buf gprotos turns) hexact h).2
  rw [wireMsg_strip] at hlen
  obtain ⟨hread, hbody⟩ := hat.prefixed hlen
  refine ⟨hlen, ?_⟩
  obtain ⟨size, s₁, s₂, hread', -, hdec, -⟩ := pbDecodeSubmessage_eq_ok.1 h
  obtain ⟨hsize, rfl⟩ := Prod.mk.inj (hread.symm.trans hread')
  obtain rfl := Option.some.inj hsize
  have hshort : (wireMsg gprotos v sub).length ≤ s.bytesLeft :=
    hbody.2.trans (by simp only [IStream.advance_bytesLeft]; omega)
  exact ih sub hexact hmsg buf _ _ turns (hbody.of_bytesLeft le_rfl) rfl (hshort.trans hturns) hdec

/-- With a wrong value stored under `key`, what is reached in the end is worth less
than the bytes it was read from. -/
theorem worth_lt_of_wrong {turns : ℕ} {key : String} {r v' : Json} {s₁ : IStream}
    {acc acc₁ last : List (String × Json)} (hexact : ExactSchema gprotos protos)
    (hpaid : Paid gprotos protos acc acc₁ (s.bytesLeft - s₁.bytesLeft))
    (hleft : s₁.bytesLeft ≤ s.bytesLeft) (hr : acc₁.lookup key = some r)
    (hlast : last.lookup key = some v') (hwrong : ¬ Grows protos key r v')
    (h : pbDecode buf gprotos turns protos (.obj acc₁) s₁ = .ok (.obj last, s')) :
    worth gprotos protos last < worth gprotos protos acc + s.bytesLeft := by
  obtain ⟨last', hlast', hleft', hpaid'⟩ :=
    frugal buf gprotos turns protos acc₁ s₁ _ s' hexact hpaid.arrays h
  obtain rfl := Json.obj.inj hlast'
  have hle := hpaid.worth_le
  rcases hpaid'.keeps key r hr with hlt | ⟨w, hw, hgrow⟩
  · omega
  · rw [hlast] at hw
    obtain rfl := Option.some.inj hw
    exact absurd hgrow hwrong

/-- A turn at the field `key`, taken apart. -/
theorem turn_back {key : String} {turns : ℕ} {result : Json} {w rest : Bytes} {last : Json × IStream}
    (hconf : ConformingSchema gprotos protos) (hkey : IsField protos key proto)
    (hat : At buf s (wireTag proto ++ w ++ rest))
    (hleft : s.bytesLeft = (wireTag proto ++ w ++ rest).length) (hturns : s.bytesLeft ≤ turns)
    (h : pbDecode buf gprotos turns protos result s = .ok last) :
    ∃ t, At buf (s.advance (wireTag proto).length) w ∧
      (s.advance (wireTag proto).length).bytesLeft ≤ t ∧
      (s.advance (wireTag proto).length).bytesLeft + (wireTag proto).length = s.bytesLeft ∧
      ∃ r₂ s₂, (if fieldOption proto = some "repeated" then
          pbDecodeArray buf gprotos proto protos (pbDecode buf gprotos t) key result
            (s.advance (wireTag proto).length)
        else
          pbDecodeProto buf gprotos proto protos (pbDecode buf gprotos t) (some key) result
            (s.advance (wireTag proto).length)) = .ok (r₂, s₂) ∧
        pbDecode buf gprotos t protos r₂ s₂ = .ok last ∧
        (s₂ = (s.advance (wireTag proto).length).advance w.length →
          At buf s₂ rest ∧ s₂.bytesLeft = rest.length ∧ s₂.bytesLeft ≤ t) := by
  have hpos := wireTag_length_pos proto
  simp only [List.length_append] at hleft
  obtain ⟨t, rfl⟩ : ∃ t, turns = t + 1 := ⟨turns - 1, by omega⟩
  have hlast := hat.right
  rw [List.length_append, ← IStream.advance_advance] at hlast
  rw [List.append_assoc] at hat
  rw [pbDecode_turn hconf hkey hat] at h
  obtain ⟨⟨r₂, s₂⟩, hstep, hrest⟩ := bind_eq_ok.1 h
  refine ⟨t, hat.right.left, ?_, ?_, r₂, s₂, hstep, hrest, ?_⟩
  · simp only [IStream.advance_bytesLeft]
    omega
  · simp only [IStream.advance_bytesLeft]
    omega
  · rintro rfl
    refine ⟨hlast, ?_, ?_⟩
    · simp only [IStream.advance_bytesLeft]
      omega
    · simp only [IStream.advance_bytesLeft]
      omega

theorem pbDecodeProto_message_some {dec : Json → Json → IStream → Dec} {key type : String}
    {sub r : Json} {acc : List (String × Json)} (hconf : ConformingSchema gprotos protos)
    (htype : fieldType proto = some type) (hnone : pbGetType type = none)
    (hres : resolveType gprotos protos type = some sub)
    (h : pbDecodeProto buf gprotos proto protos dec (some key) (.obj acc) s = .ok (r, s')) :
    ∃ x, pbDecodeSubmessage buf (dec sub (.obj [])) s = .ok (x, s') ∧
      r = .obj (setMember key x acc) := by
  obtain ⟨messages, hmsgs⟩ := hconf.level.1
  have htype' : jsonStringValue (jsonObjectGet (some proto) "type") = some type := htype
  simp only [resolveType, hmsgs, Option.bind_some] at hres
  simp only [pbDecodeProto, htype', hnone, hmsgs, hres] at h
  obtain ⟨⟨x, s₁⟩, hsub, hr⟩ := bind_eq_ok.1 h
  obtain ⟨rfl, rfl⟩ : jsonObjectSet (.obj acc) key (some x) = r ∧ s₁ = s' := pure_pair_eq_ok.1 hr
  exact ⟨x, hsub, rfl⟩

theorem pbDecodeArray_message_some {dec : Json → Json → IStream → Dec} {key type : String}
    {sub r : Json} {ys : List Json} {acc : List (String × Json)}
    (hconf : ConformingSchema gprotos protos) (htype : fieldType proto = some type)
    (hnone : pbGetType type = none) (hres : resolveType gprotos protos type = some sub)
    (hacc : key ∉ acc.map Prod.fst)
    (h : pbDecodeArray buf gprotos proto protos dec key (.obj (acc ++ arrayMember key ys)) s =
      .ok (r, s')) :
    ∃ x, pbDecodeSubmessage buf (dec sub (.obj [])) s = .ok (x, s') ∧
      r = .obj (acc ++ [(key, .arr (ys ++ [x]))]) := by
  obtain ⟨messages, hmsgs⟩ := hconf.level.1
  have htype' : jsonStringValue (jsonObjectGet (some proto) "type") = some type := htype
  have hpacked : pbIsPacked type = false := by simp [pbIsPacked, hnone]
  simp only [resolveType, hmsgs, Option.bind_some] at hres
  simp only [pbDecodeArray, htype', hpacked, Bool.false_eq_true, if_false, hnone, reduceCtorEq,
    jsonObjectGet_obj, getD_arrayMember hacc] at h
  obtain ⟨⟨array, s₁⟩, hval, hr⟩ := bind_eq_ok.1 h
  obtain ⟨rfl, rfl⟩ :
      jsonObjectSet (.obj (acc ++ arrayMember key ys)) key (some array) = r ∧ s₁ = s' :=
    pure_pair_eq_ok.1 hr
  obtain ⟨⟨x, s₂⟩, hproto, hx⟩ := bind_eq_ok.1 hval
  obtain ⟨rfl, rfl⟩ : jsonArrayAppend (.arr ys) (some x) = array ∧ s₂ = s₁ := pure_pair_eq_ok.1 hx
  simp only [pbDecodeProto, htype', hnone, hmsgs, hres] at hproto
  refine ⟨x, hproto, ?_⟩
  simp only [jsonArrayAppend, jsonObjectSet, setMember_arrayMember hacc]

theorem worth_append (xs ys : List (String × Json)) :
    worth gprotos protos (xs ++ ys) = worth gprotos protos xs + worth gprotos protos ys := by
  rw [worth, wireMembers_append, List.length_append, worth, worth]

theorem worth_arrayMember {key : String} (hget : jsonObjectGet (some protos) key = some proto)
    (hopt : fieldOption proto = some "repeated") (hpacked : fieldPacked proto = false)
    (ys : List Json) :
    worth gprotos protos (arrayMember key ys) = (wireElems gprotos ys protos proto).length := by
  cases ys with
  | nil => simp [arrayMember, worth, wireMembers, wireElems]
  | cons y ys =>
    have hfield : wireField gprotos key (.arr (y :: ys)) protos = _ :=
      wireField_repeated hget hopt
    rw [hpacked, if_neg Bool.false_ne_true, List.nil_append] at hfield
    exact congrArg List.length hfield

/-- The value of a field that does not fit is a nested message. -/
theorem exists_of_not_fitsValue {fits : Json → Prop}
    (h : ¬ FitsValue gprotos protos proto v fits) :
    ∃ type level, fieldType proto = some type ∧ pbGetType type = none ∧
      resolveType gprotos protos type = some level ∧
      ¬ ((wireMsg gprotos v level).length < 2 ^ 32 ∧ fits level) := by
  simp only [FitsValue, not_forall] at h
  obtain ⟨type, level, htype, hnone, hres, hnot⟩ := h
  exact ⟨type, level, htype, hnone, hres, hnot⟩

theorem ConformsValue.message_inv {type : String} {sub : Json}
    (hv : ConformsValue gprotos protos proto v) (htype : fieldType proto = some type)
    (hnone : pbGetType type = none) (hres : resolveType gprotos protos type = some sub) :
    ConformsMsg gprotos sub v := by
  cases hv with
  | scalar htype' ht _ =>
    obtain rfl : type = _ := Option.some.inj (htype.symm.trans htype')
    rw [hnone] at ht
    simp at ht
  | message htype' _ hres' hmsg =>
    obtain rfl : type = _ := Option.some.inj (htype.symm.trans htype')
    obtain rfl : sub = _ := Option.some.inj (hres.symm.trans hres')
    exact hmsg

theorem ArraysIn.append_array {key : String} {acc : List (String × Json)}
    (harr : ArraysIn protos acc) (hacc : key ∉ acc.map Prod.fst) (ys : List Json) :
    ArraysIn protos (acc ++ arrayMember key ys) := by
  cases ys with
  | nil => simpa [arrayMember] using harr
  | cons y ys =>
    have hset : acc ++ arrayMember key (y :: ys) = setMember key (.arr (y :: ys)) acc := by
      rw [setMember_of_not_mem hacc]
      rfl
    rw [hset]
    exact harr.set fun _ _ _ => ⟨_, rfl⟩

/-- A single field whose message was read short: the wrong value stays, and the end is worth less
than the bytes it was read from. -/
theorem worth_lt_of_short_single {key : String} {t : ℕ} {r : Json} {s₁ s₂ : IStream}
    {acc last : List (String × Json)} (hexact : ExactSchema gprotos protos)
    (hkey : IsField protos key proto) (hopt : fieldOption proto ≠ some "repeated")
    (hval : ConformsValue gprotos protos proto v) (ih : FitsBack gprotos v)
    (harr : ArraysIn protos acc) (htag : s₁.bytesLeft + (wireTag proto).length = s.bytesLeft)
    (hat : At buf s₁ (wireValue gprotos protos proto v fun level => wireMsg gprotos v level))
    (ht : s₁.bytesLeft ≤ t)
    (hstep : pbDecodeProto buf gprotos proto protos (pbDecode buf gprotos t) (some key) (.obj acc)
      s₁ = .ok (r, s₂))
    (hrest : pbDecode buf gprotos t protos r s₂ = .ok (.obj last, s'))
    (hlast : last.lookup key =
      some (stripValue gprotos protos proto v fun level => stripMsg gprotos v level))
    (hshort : ¬ FitsValue gprotos protos proto v fun level => FitsMsg gprotos v level) :
    worth gprotos protos last < worth gprotos protos acc + s.bytesLeft := by
  obtain ⟨type, sub, htype, hnone, hres, hnot⟩ := exists_of_not_fitsValue hshort
  obtain ⟨z, hz, rfl⟩ := pbDecodeProto_message_some hexact.conforming htype hnone hres hstep
  obtain ⟨acc₁, hacc₁, hle, hpaid⟩ :=
    paid_single (frugal buf gprotos t) hexact hkey hopt harr hstep
  obtain rfl := Json.obj.inj hacc₁
  simp only [wireValue, htype, hnone, hres] at hat
  have hwrong : ¬ Grows protos key z
      (stripValue gprotos protos proto v fun level => stripMsg gprotos v level) := by
    rintro (heq | ⟨proto', -, -, hget', hopt', -⟩)
    · rw [stripValue_message htype hnone hres] at heq
      rw [← heq] at hz
      exact hnot (fits_of_submessage (hexact.sub hkey htype hnone hres)
        (hval.message_inv htype hnone hres) ih hat ht hz)
    · obtain rfl : proto = proto' := Option.some.inj (hkey.1.symm.trans hget')
      exact hopt hopt'
  exact worth_lt_of_wrong hexact (hpaid.mono (by omega)) (by omega) (lookup_setMember_self ..) hlast
    hwrong hrest

/-- The same for a packed array whose number of elements was cut down to 32 bits. -/
theorem worth_lt_of_short_packed {key : String} {xs : List Json} {t : ℕ} {r : Json}
    {s₁ s₂ : IStream} {acc last : List (String × Json)} (hexact : ExactSchema gprotos protos)
    (hkey : IsField protos key proto) (hopt : fieldOption proto = some "repeated")
    (hpacked : fieldPacked proto = true) (hacc : key ∉ acc.map Prod.fst)
    (harr : ArraysIn protos acc) (htag : s₁.bytesLeft + (wireTag proto).length = s.bytesLeft)
    (hstep : pbDecodeArray buf gprotos proto protos (pbDecode buf gprotos t) key (.obj acc) s₁ =
      .ok (r, s₂))
    (hrest : pbDecode buf gprotos t protos r s₂ = .ok (.obj last, s'))
    (hlast : last.lookup key = some (.arr (stripElems gprotos xs protos proto)))
    (hlong : ¬ xs.length < 2 ^ 32) :
    worth gprotos protos last < worth gprotos protos acc + s.bytesLeft := by
  have hnew : (acc.lookup key).getD (.arr []) = .arr [] := by
    rw [lookup_of_not_mem hacc]
    rfl
  obtain ⟨zs, -, rfl, hshort, -⟩ := pbDecodeArray_packed_some hexact hkey hpacked hnew hstep
  obtain ⟨acc₁, hacc₁, hle, hpaid⟩ := paid_packed hexact hkey hopt hpacked harr hstep
  obtain rfl := Json.obj.inj hacc₁
  have hwrong : ¬ Grows protos key (.arr ([] ++ zs)) (.arr (stripElems gprotos xs protos proto)) := by
    rintro (heq | ⟨proto', -, -, hget', -, hpacked', -⟩)
    · have hsame := congrArg List.length (Json.arr.inj heq)
      rw [length_stripElems, List.nil_append] at hsame
      omega
    · obtain rfl : proto = proto' := Option.some.inj (hkey.1.symm.trans hget')
      rw [hpacked] at hpacked'
      cases hpacked'
  exact worth_lt_of_wrong hexact (hpaid.mono (by omega)) (by omega) (lookup_setMember_self ..) hlast
    hwrong hrest

/-- And for an element of an unpacked array, which the later ones only follow. -/
theorem worth_lt_of_short_element {key : String} {x : Json} {ys zs : List Json} {t : ℕ} {r : Json}
    {s₁ s₂ : IStream} {acc last : List (String × Json)} (hexact : ExactSchema gprotos protos)
    (hkey : IsField protos key proto) (hopt : fieldOption proto = some "repeated")
    (hpacked : fieldPacked proto = false) (hx : ConformsValue gprotos protos proto x)
    (ih : FitsBack gprotos x) (hacc : key ∉ acc.map Prod.fst) (harr : ArraysIn protos acc)
    (htag : s₁.bytesLeft + (wireTag proto).length = s.bytesLeft)
    (hat : At buf s₁ (wireValue gprotos protos proto x fun level => wireMsg gprotos x level))
    (ht : s₁.bytesLeft ≤ t)
    (hstep : pbDecodeArray buf gprotos proto protos (pbDecode buf gprotos t) key
      (.obj (acc ++ arrayMember key ys)) s₁ = .ok (r, s₂))
    (hrest : pbDecode buf gprotos t protos r s₂ = .ok (.obj last, s'))
    (hlast : last.lookup key = some (.arr (ys ++
      [stripValue gprotos protos proto x fun level => stripMsg gprotos x level] ++ zs)))
    (hshort : ¬ FitsValue gprotos protos proto x fun level => FitsMsg gprotos x level) :
    worth gprotos protos last <
      worth gprotos protos (acc ++ arrayMember key ys) + s.bytesLeft := by
  obtain ⟨type, sub, htype, hnone, hres, hnot⟩ := exists_of_not_fitsValue hshort
  obtain ⟨z, hz, hr⟩ :=
    pbDecodeArray_message_some hexact.conforming htype hnone hres hacc hstep
  obtain ⟨acc₁, hacc₁, hle, hpaid⟩ := paid_unpacked (frugal buf gprotos t) hexact hkey hopt hpacked
    (harr.append_array hacc ys) hstep
  rw [hr] at hacc₁ hrest
  obtain rfl := Json.obj.inj hacc₁
  simp only [wireValue, htype, hnone, hres] at hat
  have hwrong : z ≠ stripValue gprotos protos proto x fun level => stripMsg gprotos x level := by
    rintro rfl
    rw [stripValue_message htype hnone hres] at hz
    exact hnot (fits_of_submessage (hexact.sub hkey htype hnone hres)
      (hx.message_inv htype hnone hres) ih hat ht hz)
  -- in the array of the end the element stands where the wrong one would be
  have hstays : ∀ more, Json.arr (ys ++ [stripValue gprotos protos proto x fun level =>
      stripMsg gprotos x level] ++ zs) ≠ .arr (ys ++ [z] ++ more) := by
    intro more heq
    have hsame := Json.arr.inj heq
    rw [List.append_assoc, List.append_assoc] at hsame
    exact hwrong (by simpa using congrArg List.head? (List.append_cancel_left hsame).symm)
  have hgrow : ¬ Grows protos key (.arr (ys ++ [z])) (.arr (ys ++
      [stripValue gprotos protos proto x fun level => stripMsg gprotos x level] ++ zs)) := by
    rintro (heq | ⟨-, ys', more, -, -, -, heq, heq'⟩)
    · exact hstays [] (by rw [List.append_nil]; exact heq)
    · obtain rfl := Json.arr.inj heq
      exact hstays more heq'
  exact worth_lt_of_wrong hexact (hpaid.mono (by omega)) (by omega) (lookup_append_self hacc) hlast
    hgrow hrest

/-- The elements of an unpacked array: either all come back, or the end is worth less
than the bytes it was read from. -/
theorem fits_elems {key : String} {xs : List Json} (ys : List Json)
    {acc last : List (String × Json)} {turns : ℕ} {rest : Bytes} (hexact : ExactSchema gprotos protos)
    (hkey : IsField protos key proto) (hopt : fieldOption proto = some "repeated")
    (hpacked : fieldPacked proto = false) (hxs : ConformsElems gprotos protos proto xs)
    (ih : ∀ x ∈ xs, FitsBack gprotos x) (hacc : key ∉ acc.map Prod.fst)
    (harr : ArraysIn protos acc)
    (hat : At buf s (wireElems gprotos xs protos proto ++ rest))
    (hleft : s.bytesLeft = (wireElems gprotos xs protos proto ++ rest).length)
    (hturns : s.bytesLeft ≤ turns)
    (hlast : xs ≠ [] →
      last.lookup key = some (.arr (ys ++ stripElems gprotos xs protos proto)))
    (hworth : worth gprotos protos last =
      worth gprotos protos (acc ++ arrayMember key ys) + s.bytesLeft)
    (h : pbDecode buf gprotos turns protos (.obj (acc ++ arrayMember key ys)) s =
      .ok (.obj last, s')) :
    FitsElems gprotos xs protos proto ∧ ∃ s₁ t, At buf s₁ rest ∧ s₁.bytesLeft = rest.length ∧
      s₁.bytesLeft ≤ t ∧
      pbDecode buf gprotos t protos
        (.obj (acc ++ arrayMember key (ys ++ stripElems gprotos xs protos proto))) s₁ =
        .ok (.obj last, s') := by
  induction xs generalizing ys s turns with
  | nil =>
    refine ⟨by simp [FitsElems], s, turns, ?_⟩
    simp only [wireElems, List.nil_append, stripElems, List.append_nil] at hat hleft ⊢
    exact ⟨hat, hleft, hturns, h⟩
  | cons x xs ihxs =>
    cases hxs with
    | cons hx hxs =>
      have hconf := hexact.conforming
      have hmember : ∀ y, arrayMember key (ys ++ [y]) = [(key, .arr (ys ++ [y]))] := by
        simp [arrayMember]
      specialize hlast (List.cons_ne_nil _ _)
      rw [stripElems, List.append_cons] at hlast
      rw [wireElems, hpacked, if_neg Bool.false_ne_true, List.append_assoc] at hat hleft
      obtain ⟨t, hval, ht, htag, r₂, s₂, hstep, hrest, hnext⟩ :=
        turn_back hconf hkey hat hleft hturns h
      rw [if_pos hopt] at hstep
      by_cases hfit : FitsValue gprotos protos proto x fun level => FitsMsg gprotos x level
      · -- this element comes back as it should, and the rest starts behind it
        rw [pbDecodeArray_unpacked hconf hkey hpacked hx (pbDecode_wireMsg gprotos x) hfit hacc ht
          hval] at hstep
        obtain ⟨rfl, rfl⟩ := Prod.mk.inj (Except.ok.inj hstep)
        obtain ⟨hat', hleft', hturns'⟩ := hnext rfl
        have hworth' : worth gprotos protos last = worth gprotos protos (acc ++ arrayMember key
            (ys ++ [stripValue gprotos protos proto x fun level => stripMsg gprotos x level])) +
            ((s.advance (wireTag proto).length).advance (wireValue gprotos protos proto x
              fun level => wireMsg gprotos x level).length).bytesLeft := by
          have hx' : (wireElems gprotos [stripValue gprotos protos proto x fun level =>
              stripMsg gprotos x level] protos proto).length = (wireTag proto).length +
              (wireValue gprotos protos proto x fun level => wireMsg gprotos x level).length := by
            rw [wireElems, hpacked, if_neg Bool.false_ne_true,
              wireValue_strip fun level => wireMsg_strip x level]
            simp [wireElems]
          rw [worth_append, worth_arrayMember hkey.1 hopt hpacked] at hworth ⊢
          rw [wireElems_append, List.length_append, hx', hworth]
          simp only [List.length_append] at hleft hleft'
          omega
        obtain ⟨hfits, s₃, t₃, hdone⟩ := ihxs _ hxs (fun y hy => ih y (List.mem_cons_of_mem _ hy))
          hat' hleft' hturns' (fun _ => hlast) hworth' hrest
        refine ⟨by rw [FitsElems]; exact ⟨hfit, hfits⟩, s₃, t₃, ?_⟩
        rw [stripElems, List.append_cons]
        exact hdone
      · -- it was read short: the wrong element stays
        have hlt := worth_lt_of_short_element hexact hkey hopt hpacked hx
          (ih x (List.mem_cons_self ..)) hacc harr htag hval ht hstep hrest hlast hfit
        omega

theorem lookup_append_cons {key : String} {w : Json} {acc rest : List (String × Json)}
    (h : key ∉ acc.map Prod.fst) : (acc ++ [(key, w)] ++ rest).lookup key = some w := by
  rw [List.lookup_append, lookup_append_self h]
  rfl

/-- Scalars have nothing nested that could be too long. -/
theorem fitsElems_scalar {type : String} {t : PbType} (htype : fieldType proto = some type)
    (ht : pbGetType type = some t) (xs : List Json) : FitsElems gprotos xs protos proto := by
  induction xs with
  | nil => simp [FitsElems]
  | cons x xs ih =>
    rw [FitsElems]
    refine ⟨fun type' level htype' hnone _ => ?_, ih⟩
    obtain rfl : type = type' := Option.some.inj (htype.symm.trans htype')
    rw [ht] at hnone
    simp at hnone

/-- The members, by induction on their list. -/
theorem fits_members {kvs acc : List (String × Json)} {turns : ℕ}
    (hexact : ExactSchema gprotos protos) (hkvs : ConformsMembers gprotos protos kvs)
    (hnd : (kvs.map Prod.fst).Nodup) (hacc : ∀ key ∈ kvs.map Prod.fst, key ∉ acc.map Prod.fst)
    (harr : ArraysIn protos acc)
    (ih : ∀ v, sizeOf v < sizeOf (Json.obj kvs) → FitsBack gprotos v)
    (hat : At buf s (wireMembers gprotos kvs protos))
    (hleft : s.bytesLeft = (wireMembers gprotos kvs protos).length) (hturns : s.bytesLeft ≤ turns)
    (h : pbDecode buf gprotos turns protos (.obj acc) s =
      .ok (.obj (acc ++ stripMembers gprotos kvs protos), s')) :
    FitsMembers gprotos kvs protos := by
  induction kvs generalizing acc s turns with
  | nil => simp [FitsMembers]
  | cons kv kvs ihkvs =>
    obtain ⟨key, v⟩ := kv
    cases hkvs with
    | @cons _ proto _ _ _ hkey hfield hkvs =>
      have hconf := hexact.conforming
      rw [List.map_cons, List.nodup_cons] at hnd
      have hget := hkey.1
      have hkeyacc : key ∉ acc.map Prod.fst := hacc key (List.mem_cons_self ..)
      have hv : sizeOf v < sizeOf (Json.obj ((key, v) :: kvs)) :=
        sizeOf_lt_of_mem_obj (List.mem_cons_self ..)
      have hacc' : ∀ k ∈ kvs.map Prod.fst,
          k ∉ (acc ++ stripField gprotos key v protos).map Prod.fst := by
        intro k hk hmem
        rw [List.map_append, List.mem_append] at hmem
        rcases hmem with hmem | hmem
        · exact hacc k (List.mem_cons_of_mem _ hk) hmem
        · rw [stripField_keys k hmem] at hk
          exact hnd.1 hk
      -- the end of the run is worth exactly the bytes of the message
      have hworth : worth gprotos protos (acc ++ stripMembers gprotos ((key, v) :: kvs) protos) =
          worth gprotos protos acc + s.bytesLeft := by
        rw [worth_append, hleft]
        congr 1
        exact congrArg List.length (wireMembers_strip fun w _ level => wireMsg_strip w level)
      rw [stripMembers_cons, ← List.append_assoc] at h hworth
      rw [wireMembers_cons] at hat hleft
      have ih' : ∀ w, sizeOf w < sizeOf (Json.obj kvs) → FitsBack gprotos w := fun w hw => ih w (by
        simp only [Json.obj.sizeOf_spec, List.cons.sizeOf_spec] at hw ⊢
        omega)
      rw [FitsMembers, hget]
      cases hfield with
      | single hopt hval =>
        simp only [hopt, if_false]
        rw [wireField_single hget hopt] at hat hleft
        obtain ⟨t, hvalue, ht, htag, r₂, s₂, hstep, hrest, hnext⟩ :=
          turn_back hconf hkey hat hleft hturns h
        rw [if_neg hopt] at hstep
        rw [stripField_single hget hopt] at hacc' hrest hworth
        by_cases hfit : FitsValue gprotos protos proto v fun level => FitsMsg gprotos v level
        · rw [pbDecodeProto_member hconf hkey hval (pbDecode_wireMsg gprotos v) hfit ht hvalue,
            setMember_of_not_mem hkeyacc] at hstep
          obtain ⟨rfl, rfl⟩ := Prod.mk.inj (Except.ok.inj hstep)
          obtain ⟨hat', hleft', hturns'⟩ := hnext rfl
          refine ⟨hfit, ihkvs hkvs hnd.2 hacc' ?_ ih' hat' hleft' hturns' hrest⟩
          rw [← setMember_of_not_mem hkeyacc]
          refine harr.set fun proto' hget' hopt' => ?_
          obtain rfl : proto = proto' := Option.some.inj (hget.symm.trans hget')
          exact absurd hopt' hopt
        · have hlt := worth_lt_of_short_single hexact hkey hopt hval (ih v hv) harr htag hvalue ht
            hstep hrest (lookup_append_cons hkeyacc) hfit
          omega
      | @repeated _ _ xs hopt hxs =>
        simp only [hopt, if_true, FitsArray]
        rw [wireField_repeated hget hopt] at hat hleft
        cases hpacked : fieldPacked proto with
        | true =>
          rw [hpacked, if_pos rfl, List.append_assoc (wireTag proto)] at hat hleft
          obtain ⟨t, helems, ht, htag, r₂, s₂, hstep, hrest, hnext⟩ :=
            turn_back hconf hkey hat hleft hturns h
          rw [if_pos hopt] at hstep
          rw [stripField_packed hget hopt hpacked] at hacc' hrest hworth
          obtain ⟨-, tags, -, hfields⟩ := hconf.level
          obtain ⟨-, -, type, htype, -⟩ := hfields key proto hkey
          obtain ⟨t', ht'⟩ := exists_of_pbIsPacked (by rwa [fieldPacked_eq htype] at hpacked)
          by_cases hlen : xs.length < 2 ^ 32
          · rw [pbDecodeArray_packed hconf hkey hpacked hxs hlen hkeyacc helems] at hstep
            obtain ⟨rfl, rfl⟩ := Prod.mk.inj (Except.ok.inj hstep)
            obtain ⟨hat', hleft', hturns'⟩ := hnext rfl
            refine ⟨⟨fun _ => hlen, fitsElems_scalar htype ht' xs⟩,
              ihkvs hkvs hnd.2 hacc' ?_ ih' hat' hleft' hturns' hrest⟩
            rw [← setMember_of_not_mem hkeyacc]
            exact harr.set fun _ _ _ => ⟨_, rfl⟩
          · have hlt := worth_lt_of_short_packed hexact hkey hopt hpacked hkeyacc harr htag hstep
              hrest (lookup_append_cons hkeyacc) hlen
            omega
        | false =>
          rw [hpacked, if_neg Bool.false_ne_true, List.nil_append] at hat hleft
          rw [stripField_unpacked hget hopt hpacked] at hacc' h hworth
          have hempty : acc ++ arrayMember key [] = acc := by simp [arrayMember]
          have hlast : xs ≠ [] → (acc ++ arrayMember key (stripElems gprotos xs protos proto) ++
              stripMembers gprotos kvs protos).lookup key =
              some (.arr ([] ++ stripElems gprotos xs protos proto)) := by
            intro hne
            have hmember : arrayMember key (stripElems gprotos xs protos proto) =
                [(key, .arr (stripElems gprotos xs protos proto))] := by
              simp [arrayMember, stripElems_isEmpty, hne]
            rw [hmember]
            exact lookup_append_cons hkeyacc
          obtain ⟨hfits, s₁, t, hat', hleft', hturns', hrest⟩ :=
            fits_elems [] hexact hkey hopt hpacked hxs
              (fun x hx => ih x ((sizeOf_lt_of_mem_arr hx).trans hv)) hkeyacc harr hat hleft hturns
              hlast (by rw [hempty]; exact hworth) (by rw [hempty]; exact h)
          refine ⟨⟨fun hp => absurd hp Bool.false_ne_true, hfits⟩,
            ihkvs hkvs hnd.2 hacc' ?_ ih' hat' hleft' hturns' hrest⟩
          exact harr.append_array hkeyacc _

/-- **What comes back right was not too long.** -/
theorem fitsBack (gprotos msg : Json) : FitsBack gprotos msg := by
  induction msg using (measure (sizeOf : Json → ℕ)).wf.induction with
  | _ msg ih =>
    intro level hexact hmsg buf s s' turns hat hleft hturns h
    cases hmsg with
    | obj hnd hkvs =>
      rw [wireMsg] at hat hleft
      rw [stripMsg] at h
      rw [FitsMsg]
      exact fits_members hexact hkvs hnd (by simp) arraysIn_nil ih hat hleft hturns h

end Short

/-- **What survives the round trip fits.** -/
theorem fits_of_roundTrips {gprotos protos msg : Json} (hexact : ExactSchema gprotos protos)
    (hmsg : ConformsMsg gprotos protos msg) (hencodable : Encodable gprotos protos msg)
    (h : RoundTrips gprotos protos msg) : FitsMsg gprotos msg protos := by
  obtain ⟨s', hdec⟩ := pcPbDecode_eq_ok.mp (h.decodes hexact.conforming hmsg hencodable)
  have hat : At (wireMsg gprotos msg protos)
      (pbIstreamFromBuffer (wireMsg gprotos msg protos).length) (wireMsg gprotos msg protos) :=
    ⟨List.prefix_rfl, le_rfl⟩
  exact fitsBack gprotos msg protos hexact hmsg _ _ s' _ hat rfl le_rfl hdec

/-- **When decoding undoes encoding.** It does for every conforming message whose
packed arrays have fewer than `2 ^ 32` elements and whose nested messages have fewer
than `2 ^ 32` bytes, and, where `__tags` has no entries but those of the fields, for
no other that some buffer is large enough for. -/
theorem pbDecode_undoes_pbEncode_iff {gprotos protos msg : Json}
    (hconf : ConformingSchema gprotos protos) (hmsg : ConformsMsg gprotos protos msg) :
    (FitsMsg gprotos msg protos → RoundTrips gprotos protos msg) ∧
      (ExactSchema gprotos protos → Encodable gprotos protos msg → RoundTrips gprotos protos msg →
        FitsMsg gprotos msg protos) :=
  ⟨roundTrips_of_fits hconf hmsg, fun hexact => fits_of_roundTrips hexact hmsg⟩

/-! ## A schema with one packed field -/

/-- `a` is a repeated `uInt32` with tag 1. -/
def countsField : Json :=
  .obj [("option", .str "repeated"), ("type", .str "uInt32"), ("tag", .int 1)]

/-- The level with that one field. -/
def countsSchema : Json :=
  .obj [("__messages", .obj []), ("__tags", .obj [("1", .str "a")]), ("a", countsField)]

/-- The message with `n` zeros in it. -/
def countsMsg (n : ℕ) : Json := .obj [("a", .arr (List.replicate n (.int 0)))]

theorem exact_countsSchema (gprotos : Json) : ExactSchema gprotos countsSchema := by
  refine ⟨fun level => level = countsSchema, rfl, ?_⟩
  rintro level rfl
  refine ⟨⟨⟨_, rfl⟩, _, rfl, fun key proto h => ?_⟩, fun tags text entry htags hentry => ?_⟩
  · obtain ⟨rfl, rfl⟩ := isField_single h
    exact ⟨.inr (.inr rfl), ⟨1, by decide, by decide, rfl, rfl⟩, "uInt32", rfl,
      fun hnone => absurd hnone (by decide)⟩
  · obtain rfl : Json.obj [("1", .str "a")] = tags := Option.some.inj htags
    refine ⟨"a", countsField, 1, ⟨rfl, by decide, by decide⟩, rfl, ?_⟩
    by_cases htext : text = "1"
    · subst htext
      exact ⟨rfl, (Option.some.inj hentry).symm⟩
    · simp [List.lookup_cons, beq_eq_false_iff_ne.2 htext] at hentry

theorem conforms_countsMsg (gprotos : Json) (n : ℕ) :
    ConformsMsg gprotos countsSchema (countsMsg n) := by
  have helem : ConformsValue gprotos countsSchema countsField (.int 0) :=
    .scalar (t := .uInt32) rfl rfl ⟨0, rfl, by decide⟩
  have helems : ConformsElems gprotos countsSchema countsField (List.replicate n (.int 0)) := by
    induction n with
    | zero => exact .nil
    | succ n ih => exact .cons helem ih
  exact .obj (by simp) (.cons ⟨rfl, by decide, by decide⟩ (.repeated rfl helems) .nil)

theorem fits_countsMsg_iff (gprotos : Json) (n : ℕ) :
    FitsMsg gprotos (countsMsg n) countsSchema ↔ n < 2 ^ 32 := by
  have hget : jsonObjectGet (some countsSchema) "a" = some countsField := rfl
  have hopt : fieldOption countsField = some "repeated" := rfl
  have hpacked : fieldPacked countsField = true := by decide
  have helems : FitsElems gprotos (List.replicate n (.int 0)) countsSchema countsField :=
    fitsElems_scalar (t := .uInt32) rfl rfl _
  simp [countsMsg, FitsMsg, FitsMembers, FitsArray, hget, hopt, hpacked, helems]

theorem length_wireElems_zeros (gprotos : Json) (n : ℕ) :
    (wireElems gprotos (List.replicate n (.int 0)) countsSchema countsField).length = n := by
  induction n with
  | zero => simp [wireElems]
  | succ n ih =>
    have hzero : wireScalar .uInt32 (.int 0) = [0] := by decide +kernel
    have hpacked : fieldPacked countsField = true := by decide
    have htype : fieldType countsField = some "uInt32" := rfl
    have hkind : pbGetType "uInt32" = some .uInt32 := by decide
    simp only [List.replicate_succ, wireElems, hpacked, if_true, wireValue, htype, hkind, hzero,
      List.nil_append, List.singleton_append, List.length_cons, ih]

/-- A message with a byte for each of its zeros, behind a tag and a count. -/
theorem encodable_countsMsg {n : ℕ} (h : n < 2 ^ 63) : Encodable .null countsSchema (countsMsg n) := by
  have htag : (wireTag countsField).length = 1 := by decide +kernel
  have hmod : n % 2 ^ 64 < 2 ^ 64 := Nat.mod_lt _ (by decide)
  have hcount : (varintBytes (n % 2 ^ 64)).length ≤ 10 := by
    rw [varintBytes_eq hmod]
    exact Leb128.length_encode_le (by decide) (hmod.trans (by decide))
  have hpacked : fieldPacked countsField = true := by decide
  have hwire : (wireMsg .null (countsMsg n) countsSchema).length ≤ 11 + n := by
    have hget : jsonObjectGet (some countsSchema) "a" = some countsField := rfl
    have hfield : wireField .null "a" (.arr (List.replicate n (.int 0))) countsSchema = _ :=
      wireField_repeated hget rfl
    rw [countsMsg, wireMsg, wireMembers_cons, hfield, hpacked, if_pos rfl, List.length_replicate]
    simp only [wireMembers, List.append_nil, List.length_append, length_wireElems_zeros, htag]
    omega
  exact ⟨11 + n, by omega, _, (pcPbEncode_eq_ok_iff (exact_countsSchema .null).conforming
    (conforms_countsMsg .null n) (by omega)).mpr ⟨rfl, hwire⟩⟩

theorem roundTrips_three_zeros :
    ConformingSchema .null countsSchema ∧ ConformsMsg .null countsSchema (countsMsg 3) ∧
      RoundTrips .null countsSchema (countsMsg 3) :=
  have hconf := (exact_countsSchema .null).conforming
  have hmsg := conforms_countsMsg .null 3
  ⟨hconf, hmsg, (pbDecode_undoes_pbEncode_iff hconf hmsg).1
    ((fits_countsMsg_iff .null 3).2 (by decide))⟩

/-- The count `2 ^ 32` is read back as `0`. -/
theorem not_roundTrips_two_pow_zeros :
    ConformingSchema .null countsSchema ∧ ConformsMsg .null countsSchema (countsMsg (2 ^ 32)) ∧
      ¬ RoundTrips .null countsSchema (countsMsg (2 ^ 32)) := by
  have hexact := exact_countsSchema .null
  have hmsg := conforms_countsMsg .null (2 ^ 32)
  refine ⟨hexact.conforming, hmsg, fun hround => ?_⟩
  have hfits := fits_of_roundTrips hexact hmsg (encodable_countsMsg (by decide)) hround
  exact absurd ((fits_countsMsg_iff .null (2 ^ 32)).1 hfits) (lt_irrefl _)

end Libpomelo
