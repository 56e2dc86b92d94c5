import Libpomelo.Message

/-!
# How far `pc_msg_decode` reads

The decoder checks its input once before the id and once before each part of the route.
It should read nothing behind the data and never shift by the width of an `int`, and a
message it returns should be made up of a header and a body that fill the data
(`DecodesInBounds`).

Three things go wrong. The id loop follows continuation bytes without a further check:
an id that does not end within five bytes is shifted too far, one that does not end
within the data is read behind it. A route length of 255 becomes `2 ^ 64 - 1`, for which
zero bytes are allocated and the check wraps around. And the allocation of the body is
not checked. `HeaderInBounds` says that none of this is in the data, and
`decodesInBounds_iff` that this is exactly when the decoder stays within it.
-/

namespace Libpomelo

/-- The outcome of `pc_msg_decode` on the data: `NULL`, or a message whose header and
body are the data. Reads behind it, oversized shifts and a copy into `NULL` are other
outcomes. -/
def DecodesInBounds (ms : List Bool) (data : Bytes) : Prop :=
  msgDecode ms data = .error .null ∨
    ∃ raw ms' header, msgDecode ms data = .ok (raw, ms') ∧ data = header ++ raw.body ∧
      header.length + raw.body.length = data.length

/-! ## The header -/

/-- The byte is followed by another byte of the id. -/
def continues (b : UInt8) : Bool := 128 ≤ b.toNat

/-- The bytes behind the id. -/
def behindId (type : MsgType) (rest : Bytes) : Bytes :=
  if type.hasId then (rest.dropWhile continues).tail else rest

/-- The body behind a complete header, and the outcomes left for its allocation. -/
def bodyBehind (ms : List Bool) (type : MsgType) (compressRoute : Bool) (rest : Bytes) :
    Option (Bytes × List Bool) :=
  if ¬ type.hasRoute then some (rest, ms)
  else if compressRoute then
    match rest with
    | _ :: _ :: body => some (body, ms)
    | _ => none
  else
    match rest with
    | [] => none
    | b :: route =>
      if b.toNat = 0 then some (route, ms)
      else if (malloc ms).1 ∧ b.toNat < 128 ∧ b.toNat ≤ route.length then
        some (route.drop b.toNat, (malloc ms).2)
      else none

/-- **What the data must not hold.** The id ends within five bytes and within the data;
a route length of 255 does not get its zero bytes; the body is allocated. -/
structure HeaderInBounds (ms : List Bool) (type : MsgType) (compressRoute : Bool) (rest : Bytes) :
    Prop where
  /-- the id -/
  id : type.hasId = true → rest ≠ [] → ∃ b ∈ rest.take 5, continues b = false
  /-- the length of the route string -/
  route : type.hasRoute = true → compressRoute = false →
    (behindId type rest).head? = some 255 → (malloc ms).1 = false
  /-- the body -/
  body : ∀ body ms', bodyBehind ms type compressRoute (behindId type rest) = some (body, ms') →
    body ≠ [] → (malloc ms').1 = true

/-- The same for the whole data, where there is a message and memory for it. -/
def InBounds (ms : List Bool) (data : Bytes) : Prop :=
  ∀ flag rest type, (malloc ms).1 = true → data = flag :: rest →
    MsgType.ofCode (flag.toNat >>> 1) = some type →
    HeaderInBounds (malloc ms).2 type (decide (flag.toNat &&& 1 = 1)) rest

/-! ## The id -/

/-- The id loop reads up to the first byte that does not continue, if that comes in time. -/
theorem msgDecodeId_ok (rest : Bytes) :
    ∀ i id, i ≤ 5 → (∃ b ∈ rest.take (5 - i), continues b = false) →
      ∃ id', msgDecodeId rest i id = .ok (id', (rest.dropWhile continues).tail) := by
  induction rest with
  | nil =>
    rintro i id - ⟨b, hb, -⟩
    exact absurd hb (by simp)
  | cons m rest ih =>
    intro i id hi hends
    have hlt : i < 5 := by
      by_contra hge
      obtain ⟨b, hb, -⟩ := hends
      rw [show 5 - i = 0 by omega] at hb
      exact absurd hb (by simp)
    rw [msgDecodeId, if_neg (by omega)]
    by_cases hm : 128 ≤ m.toNat
    · -- one more byte
      rw [if_pos hm, List.dropWhile_cons_of_pos (by simpa [continues] using hm)]
      apply ih (i + 1) _ (by omega)
      obtain ⟨b, hb, hlow⟩ := hends
      rw [show 5 - i = (5 - (i + 1)) + 1 by omega, List.take_succ_cons] at hb
      rcases List.mem_cons.1 hb with rfl | hb
      · exact absurd hlow (by simpa [continues] using hm)
      · exact ⟨b, hb, hlow⟩
    · rw [if_neg hm, List.dropWhile_cons_of_neg (by simpa [continues] using hm)]
      exact ⟨_, rfl⟩

/-- Otherwise it reads behind the data or shifts too far. -/
theorem msgDecodeId_stop (rest : Bytes) :
    ∀ i id, i ≤ 5 → (∀ b ∈ rest.take (5 - i), continues b = true) →
      msgDecodeId rest i id = .error .overread ∨ msgDecodeId rest i id = .error .badShift := by
  induction rest with
  | nil =>
    intro i id _ _
    exact .inl rfl
  | cons m rest ih =>
    intro i id hi hall
    rw [msgDecodeId]
    by_cases hlt : i < 5
    · have hm : continues m = true := by
        apply hall m
        rw [show 5 - i = (5 - (i + 1)) + 1 by omega, List.take_succ_cons]
        exact List.mem_cons_self ..
      rw [if_neg (by omega), if_pos (by simpa [continues] using hm)]
      apply ih (i + 1) _ (by omega)
      intro b hb
      apply hall b
      rw [show 5 - i = (5 - (i + 1)) + 1 by omega, List.take_succ_cons]
      exact List.mem_cons_of_mem _ hb
    · rw [if_pos (by omega)]
      exact .inr rfl

/-! ## The route -/

/-- A complete route is read. -/
theorem msgDecodeRoute_ok {ms ms' : List Bool} {type : MsgType} {compressRoute : Bool} {len : ℕ}
    {rest body : Bytes} (hroute : type.hasRoute = true) (hle : rest.length ≤ len)
    (hoffset : len ≤ rest.length + 6)
    (h : bodyBehind ms type compressRoute rest = some (body, ms')) :
    ∃ code str, msgDecodeRoute ms compressRoute len rest = .ok (code, str, body, ms') := by
  unfold bodyBehind at h
  rw [if_neg (by simp [hroute])] at h
  unfold msgDecodeRoute
  cases compressRoute with
  | true =>
    simp only [if_true] at h ⊢
    split at h
    · obtain ⟨rfl, rfl⟩ := Prod.mk.inj (Option.some.inj h)
      exact ⟨_, _, rfl⟩
    · exact absurd h (by simp)
  | false =>
    simp only [Bool.false_eq_true, if_false] at h ⊢
    split at h
    · exact absurd h (by simp)
    · next b route =>
      rw [List.length_cons] at hle hoffset
      by_cases hzero : b.toNat = 0
      · rw [if_pos hzero] at h
        obtain ⟨rfl, rfl⟩ := Prod.mk.inj (Option.some.inj h)
        refine ⟨0, none, ?_⟩
        simp [charToSize, hzero]
      · rw [if_neg hzero] at h
        split at h
        · next hfits =>
          obtain ⟨hmalloc, hlow, hlen⟩ := hfits
          obtain ⟨rfl, rfl⟩ := Prod.mk.inj (Option.some.inj h)
          have hsize : charToSize b = b.toNat := by rw [charToSize, if_pos hlow]
          have hsmall : (b.toNat + 1) % 2 ^ 64 < 2 ^ 63 := by omega
          have hcheck : ¬ len < (len - route.length + b.toNat) % 2 ^ 64 := by omega
          refine ⟨0, some (route.take b.toNat), ?_⟩
          simp only [hsize, hzero, if_false, mallocSize, hmalloc, hsmall, hcheck, Nat.not_lt.2 hlen,
            decide_true, Bool.and_true, not_true]
        · exact absurd h (by simp)

/-- A route that is not complete is refused, a length of 255 apart. -/
theorem msgDecodeRoute_null {ms : List Bool} {type : MsgType} {compressRoute : Bool} {len : ℕ}
    {rest : Bytes} (hroute : type.hasRoute = true) (hle : rest.length ≤ len)
    (hoffset : len ≤ rest.length + 6) (hnone : bodyBehind ms type compressRoute rest = none)
    (hmax : compressRoute = false → rest.head? = some 255 → (malloc ms).1 = false) :
    msgDecodeRoute ms compressRoute len rest = .error .null := by
  unfold bodyBehind at hnone
  rw [if_neg (by simp [hroute])] at hnone
  unfold msgDecodeRoute
  cases compressRoute with
  | true =>
    simp only [if_true] at hnone ⊢
    cases rest with
    | nil => rfl
    | cons hi rest =>
      cases rest with
      | nil => rfl
      | cons lo body => exact absurd hnone (by simp)
  | false =>
    simp only [Bool.false_eq_true, if_false] at hnone ⊢
    split at hnone
    · rfl
    · next b route =>
      have hmax' : b = 255 → (malloc ms).1 = false := fun hb => hmax rfl (by rw [hb]; rfl)
      rw [List.length_cons] at hle hoffset
      by_cases hzero : b.toNat = 0
      · rw [if_pos hzero] at hnone
        exact absurd hnone (by simp)
      · rw [if_neg hzero] at hnone
        have hsize : charToSize b ≠ 0 := by
          rw [charToSize]
          split <;> omega
        simp only [hsize, if_false]
        by_cases hmalloc : (mallocSize ms ((charToSize b + 1) % 2 ^ 64)).1 = true
        · -- the allocation succeeded, so the length is a small one and does not fit
          have hok : (malloc ms).1 = true ∧ (charToSize b + 1) % 2 ^ 64 < 2 ^ 63 := by
            simpa [mallocSize] using hmalloc
          have hlow : b.toNat < 128 := by
            by_contra hhigh
            have hb : b.toNat < 256 := UInt8.toNat_lt b
            rw [charToSize, if_neg hhigh] at hok
            have hb255 : b = 255 := UInt8.toNat_inj.1 (by rw [show (255 : UInt8).toNat = 255 from rfl]; omega)
            rw [hmax' hb255] at hok
            exact absurd hok.1 (by decide)
          have hlong : route.length < b.toNat := by
            by_contra hfits
            rw [if_pos ⟨hok.1, hlow, Nat.not_lt.1 hfits⟩] at hnone
            exact absurd hnone (by simp)
          have hsize' : charToSize b = b.toNat := by rw [charToSize, if_pos hlow]
          have hcheck : len < (len - route.length + charToSize b) % 2 ^ 64 := by
            omega
          simp only [hmalloc, hcheck, not_true, if_false, if_true]
        · rw [if_pos hmalloc]

/-- A length of 255 that gets its zero bytes is read behind the data. -/
theorem msgDecodeRoute_overread {ms : List Bool} {len : ℕ} {rest : Bytes}
    (hle : rest.length ≤ len) (hlen : len < 2 ^ 64) (hhead : rest.head? = some 255)
    (hmalloc : (malloc ms).1 = true) :
    msgDecodeRoute ms false len rest = .error .overread := by
  cases rest with
  | nil => exact absurd hhead (by simp)
  | cons b route =>
    obtain rfl : b = 255 := by simpa using hhead
    rw [List.length_cons] at hle
    have hsize : charToSize 255 = 2 ^ 64 - 1 := rfl
    have hnot : charToSize 255 ≠ 0 := by decide
    have hok : (mallocSize ms ((charToSize 255 + 1) % 2 ^ 64)).1 = true := by
      simp [mallocSize, hsize, hmalloc]
    have hcheck : ¬ len < (len - route.length + charToSize 255) % 2 ^ 64 := by omega
    have hshort : route.length < charToSize 255 := by omega
    simp only [msgDecodeRoute, Bool.false_eq_true, if_false, hnot, hok, hcheck, hshort, not_true,
      if_true]

theorem bodyBehind_response {type : MsgType} (hno : type.hasRoute = false) (ms : List Bool)
    (compressRoute : Bool) (rest : Bytes) :
    bodyBehind ms type compressRoute rest = some (rest, ms) := by
  unfold bodyBehind
  rw [if_pos (by simp [hno])]

/-- What the header leaves is the end of what there was. -/
theorem bodyBehind_suffix {ms ms' : List Bool} {type : MsgType} {compressRoute : Bool}
    {rest body : Bytes} (h : bodyBehind ms type compressRoute rest = some (body, ms')) :
    body <:+ rest := by
  unfold bodyBehind at h
  split at h
  · obtain ⟨rfl, -⟩ := Prod.mk.inj (Option.some.inj h)
    exact List.suffix_rfl
  · split at h
    · split at h
      · obtain ⟨rfl, -⟩ := Prod.mk.inj (Option.some.inj h)
        exact (List.suffix_cons _ _).trans (List.suffix_cons _ _)
      · exact absurd h (by simp)
    · split at h
      · exact absurd h (by simp)
      · next b route =>
        split at h
        · obtain ⟨rfl, -⟩ := Prod.mk.inj (Option.some.inj h)
          exact List.suffix_cons _ _
        · split at h
          · obtain ⟨rfl, -⟩ := Prod.mk.inj (Option.some.inj h)
            exact (List.drop_suffix _ _).trans (List.suffix_cons _ _)
          · exact absurd h (by simp)

theorem behindId_suffix (type : MsgType) (rest : Bytes) : behindId type rest <:+ rest := by
  rw [behindId]
  split
  · exact (List.tail_suffix _).trans (List.dropWhile_suffix _)
  · exact List.suffix_rfl

/-! ## The whole decoder -/

/-- The decoder behind the type. -/
def decodeBehindType (ms : List Bool) (type : MsgType) (compressRoute : Bool) (len : ℕ)
    (rest : Bytes) : Except MsgStop (RawMsg × List Bool) := do
  let (id, rest) ←
    (if type.hasId then if rest = [] then .error .null else msgDecodeId rest 0 0
     else .ok (0, rest))
  let (routeCode, routeStr, rest, ms) ←
    (if type.hasRoute then msgDecodeRoute ms compressRoute len rest else .ok (0, none, rest, ms))
  if rest = [] then .ok (⟨id, type, compressRoute, routeCode, routeStr, rest⟩, ms)
  else
    let (ok, ms) := malloc ms
    if ok then .ok (⟨id, type, compressRoute, routeCode, routeStr, rest⟩, ms) else .error .badCopy

theorem msgDecode_cons {ms : List Bool} {flag : UInt8} {rest : Bytes} {type : MsgType}
    (hmalloc : (malloc ms).1 = true) (htype : MsgType.ofCode (flag.toNat >>> 1) = some type) :
    msgDecode ms (flag :: rest) =
      decodeBehindType (malloc ms).2 type (decide (flag.toNat &&& 1 = 1)) (rest.length + 1) rest := by
  rw [msgDecode]
  simp only [hmalloc, htype]
  rfl

/-- The part of the decoder that reads the id. -/
theorem decodeId_ok {type : MsgType} {rest : Bytes}
    (h : type.hasId = true → rest ≠ [] → ∃ b ∈ rest.take 5, continues b = false)
    (hrest : type.hasId = true → rest ≠ []) :
    ∃ id, (if type.hasId then if rest = [] then .error .null else msgDecodeId rest 0 0
      else .ok (0, rest)) = .ok (id, behindId type rest) := by
  rw [behindId]
  by_cases hid : type.hasId = true
  · obtain ⟨id, hok⟩ := msgDecodeId_ok rest 0 0 (by decide) (h hid (hrest hid))
    refine ⟨id, ?_⟩
    rw [if_pos hid, if_pos hid, if_neg (hrest hid)]
    exact hok
  · exact ⟨0, by rw [if_neg hid, if_neg hid]⟩

/-- An id that ends in time takes at most that many bytes. -/
theorem length_le_behind (rest : Bytes) :
    ∀ n, (∃ b ∈ rest.take n, continues b = false) →
      rest.length ≤ (rest.dropWhile continues).tail.length + n := by
  induction rest with
  | nil =>
    intro n _
    exact Nat.zero_le _
  | cons m rest ih =>
    rintro n ⟨b, hb, hlow⟩
    cases n with
    | zero => exact absurd hb (by simp)
    | succ n =>
      by_cases hm : continues m = true
      · rw [List.dropWhile_cons_of_pos hm]
        rw [List.take_succ_cons] at hb
        rcases List.mem_cons.1 hb with rfl | hb
        · rw [hm] at hlow
          exact absurd hlow (by decide)
        · have hih := ih n ⟨b, hb, hlow⟩
          rw [List.length_cons]
          omega
      · rw [List.dropWhile_cons_of_neg hm, List.tail_cons, List.length_cons]
        omega

theorem length_le_behindId {type : MsgType} {rest : Bytes}
    (h : type.hasId = true → rest ≠ [] → ∃ b ∈ rest.take 5, continues b = false) :
    rest.length ≤ (behindId type rest).length + 5 := by
  rw [behindId]
  split
  · next hid =>
    by_cases hnil : rest = []
    · rw [hnil]
      exact Nat.zero_le _
    · exact length_le_behind rest 5 (h hid hnil)
  · exact Nat.le_add_right _ _

/-- The decoder once the id is read. -/
theorem decodeBehindType_eq {ms : List Bool} {type : MsgType} {compressRoute : Bool} {len id : ℕ}
    {rest rest' : Bytes}
    (h : (if type.hasId then if rest = [] then .error .null else msgDecodeId rest 0 0
      else .ok (0, rest)) = .ok (id, rest')) :
    decodeBehindType ms type compressRoute len rest =
      ((if type.hasRoute then msgDecodeRoute ms compressRoute len rest'
        else .ok (0, none, rest', ms)) >>= fun r =>
        if r.2.2.1 = [] then .ok (⟨id, type, compressRoute, r.1, r.2.1, r.2.2.1⟩, r.2.2.2)
        else if (malloc r.2.2.2).1 then
          .ok (⟨id, type, compressRoute, r.1, r.2.1, r.2.2.1⟩, (malloc r.2.2.2).2)
        else .error .badCopy) := by
  rw [decodeBehindType, h]
  rfl

/-- A complete header is read. -/
theorem decodeRoute_ok {ms ms' : List Bool} {type : MsgType} {compressRoute : Bool} {len : ℕ}
    {rest body : Bytes} (hle : rest.length ≤ len) (hoffset : len ≤ rest.length + 6)
    (h : bodyBehind ms type compressRoute rest = some (body, ms')) :
    ∃ code str, (if type.hasRoute then msgDecodeRoute ms compressRoute len rest
      else .ok (0, none, rest, ms)) = .ok (code, str, body, ms') := by
  by_cases hroute : type.hasRoute = true
  · rw [if_pos hroute]
    exact msgDecodeRoute_ok hroute hle hoffset h
  · rw [bodyBehind_response (by simpa using hroute)] at h
    obtain ⟨rfl, rfl⟩ := Prod.mk.inj (Option.some.inj h)
    rw [if_neg hroute]
    exact ⟨0, none, rfl⟩

/-- **Within bounds the decoder refuses or returns** what is left behind the header. -/
theorem HeaderInBounds.decode {ms : List Bool} {type : MsgType} {compressRoute : Bool}
    {rest : Bytes} (h : HeaderInBounds ms type compressRoute rest) :
    decodeBehindType ms type compressRoute (rest.length + 1) rest = .error .null ∨
      ∃ raw ms', decodeBehindType ms type compressRoute (rest.length + 1) rest = .ok (raw, ms') ∧
        raw.body <:+ rest := by
  by_cases hempty : type.hasId = true ∧ rest = []
  · left
    rw [decodeBehindType, if_pos hempty.1, if_pos hempty.2]
    rfl
  · have hrest : type.hasId = true → rest ≠ [] := fun hid hnil => hempty ⟨hid, hnil⟩
    obtain ⟨id, hid⟩ := decodeId_ok h.id hrest
    have hlong := length_le_behindId h.id
    have hshort : (behindId type rest).length ≤ rest.length + 1 :=
      Nat.le_trans (behindId_suffix type rest).length_le (Nat.le_succ _)
    rw [decodeBehindType_eq hid]
    rcases hb : bodyBehind ms type compressRoute (behindId type rest) with _ | ⟨body, ms'⟩
    · have hroute : type.hasRoute = true := by
        by_contra hno
        rw [bodyBehind_response (by simpa using hno)] at hb
        exact absurd hb (by simp)
      left
      rw [if_pos hroute, msgDecodeRoute_null hroute hshort (by omega) hb (h.route hroute)]
      rfl
    · obtain ⟨code, str, hread⟩ := decodeRoute_ok hshort (by omega) hb
      have hsuffix : body <:+ rest := (bodyBehind_suffix hb).trans (behindId_suffix type rest)
      right
      rw [hread]
      by_cases hnil : body = []
      · exact ⟨⟨id, type, compressRoute, code, str, body⟩, ms', if_pos hnil, hsuffix⟩
      · refine ⟨⟨id, type, compressRoute, code, str, body⟩, (malloc ms').2, ?_, hsuffix⟩
        exact (if_neg hnil).trans (if_pos (h.body body ms' hb hnil))

/-- **Out of bounds it does neither.** -/
theorem headerInBounds_of_decode {ms : List Bool} {type : MsgType} {compressRoute : Bool}
    {rest : Bytes} (hlen : rest.length + 1 < 2 ^ 64)
    (hover : decodeBehindType ms type compressRoute (rest.length + 1) rest ≠ .error .overread)
    (hshift : decodeBehindType ms type compressRoute (rest.length + 1) rest ≠ .error .badShift)
    (hcopy : decodeBehindType ms type compressRoute (rest.length + 1) rest ≠ .error .badCopy) :
    HeaderInBounds ms type compressRoute rest := by
  have hid : type.hasId = true → rest ≠ [] → ∃ b ∈ rest.take 5, continues b = false := by
    intro hid hne
    by_contra hnone
    have hall : ∀ b ∈ rest.take (5 - 0), continues b = true := by
      intro b hb
      by_contra hlow
      exact hnone ⟨b, hb, by simpa using hlow⟩
    rcases msgDecodeId_stop rest 0 0 (by decide) hall with hstop | hstop
    · apply hover
      rw [decodeBehindType, if_pos hid, if_neg hne, hstop]
      rfl
    · apply hshift
      rw [decodeBehindType, if_pos hid, if_neg hne, hstop]
      rfl
  by_cases hempty : type.hasId = true ∧ rest = []
  · -- the header ends before the id
    have hbehind : behindId type rest = [] := by
      rw [behindId, if_pos hempty.1, hempty.2]
      rfl
    refine ⟨hid, ?_, ?_⟩
    · intro _ _ hhead
      rw [hbehind] at hhead
      exact absurd hhead (by simp)
    · intro body ms' hb hne
      have hsuffix := bodyBehind_suffix hb
      rw [hbehind] at hsuffix
      exact absurd (List.suffix_nil.1 hsuffix) hne
  · have hrest : type.hasId = true → rest ≠ [] := fun hid hnil => hempty ⟨hid, hnil⟩
    obtain ⟨id, hread⟩ := decodeId_ok hid hrest
    have hlong := length_le_behindId hid
    have hshort : (behindId type rest).length ≤ rest.length + 1 :=
      Nat.le_trans (behindId_suffix type rest).length_le (Nat.le_succ _)
    rw [decodeBehindType_eq hread] at hover hcopy
    refine ⟨hid, ?_, ?_⟩
    · rintro hroute rfl hhead
      by_contra hmalloc
      apply hover
      rw [if_pos hroute, msgDecodeRoute_overread hshort hlen hhead (by simpa using hmalloc)]
      rfl
    · intro body ms' hb hne
      by_contra hmalloc
      obtain ⟨code, str, hok⟩ := decodeRoute_ok hshort (by omega) hb
      apply hcopy
      rw [hok]
      exact (if_neg hne).trans (if_neg hmalloc)

/-- Within bounds the message is `NULL`, or its header and body are the data. -/
theorem InBounds.decode {ms : List Bool} {data : Bytes} (h : InBounds ms data) :
    msgDecode ms data = .error .null ∨
      ∃ raw ms' header, msgDecode ms data = .ok (raw, ms') ∧ data = header ++ raw.body := by
  by_cases hmalloc : (malloc ms).1 = true
  · cases data with
    | nil =>
      left
      rw [msgDecode]
      simp only [hmalloc]
      rfl
    | cons flag rest =>
      rcases htype : MsgType.ofCode (flag.toNat >>> 1) with _ | type
      · left
        rw [msgDecode]
        simp only [hmalloc, htype]
        rfl
      · rw [msgDecode_cons hmalloc htype]
        apply (h flag rest type hmalloc rfl htype).decode.imp id
        rintro ⟨raw, ms', hok, header, rfl⟩
        exact ⟨raw, ms', flag :: header, hok, rfl⟩
  · left
    rw [msgDecode]
    exact if_pos hmalloc

/-- Out of bounds one of the three faults occurs. -/
theorem inBounds_of_decode {ms : List Bool} {data : Bytes} (hlen : data.length < 2 ^ 64)
    (hover : msgDecode ms data ≠ .error .overread)
    (hshift : msgDecode ms data ≠ .error .badShift)
    (hcopy : msgDecode ms data ≠ .error .badCopy) : InBounds ms data := by
  rintro flag rest type hmalloc rfl htype
  rw [List.length_cons] at hlen
  rw [msgDecode_cons hmalloc htype] at hover hshift hcopy
  exact headerInBounds_of_decode hlen hover hshift hcopy

/-- **How far the decoder reads.** For data of any length that fits a `size_t` and
whatever the allocator does, `pc_msg_decode` stays within the data, shifts by less than
32 and returns `NULL` or a message that fills the data, if and only if the header is
within bounds. -/
theorem decodesInBounds_iff (ms : List Bool) (data : Bytes) (hlen : data.length < 2 ^ 64) :
    DecodesInBounds ms data ↔ InBounds ms data := by
  constructor
  · intro hbounds
    rw [DecodesInBounds] at hbounds
    apply inBounds_of_decode hlen
    all_goals
      intro hstop
      rw [hstop] at hbounds
      exact absurd hbounds (by simp)
  · intro hin
    apply hin.decode.imp id
    rintro ⟨raw, ms', header, hok, hdata⟩
    refine ⟨raw, ms', header, hok, hdata, ?_⟩
    rw [hdata, List.length_append]

/-- A response with the id 1 and the body `{}` is decoded within bounds. -/
theorem decodesInBounds_response : DecodesInBounds [] [4, 1, 123, 125] := by
  apply (decodesInBounds_iff [] [4, 1, 123, 125] (by decide)).2
  rintro flag rest type - hcons htype
  obtain ⟨rfl, rfl⟩ := List.cons.inj hcons
  obtain rfl : type = .response := Option.some.inj (htype.symm.trans rfl)
  refine ⟨fun _ _ => ⟨1, by decide, by decide⟩, fun hroute => absurd hroute (by decide), ?_⟩
  intro body ms' hb _
  obtain ⟨-, rfl⟩ := Prod.mk.inj (Option.some.inj hb)
  rfl

/-- A response whose id does not end is read behind its two bytes. -/
theorem not_decodesInBounds_response : ¬ DecodesInBounds [] [4, 128] := by
  have hover : msgDecode [] [4, 128] = .error .overread := rfl
  rw [DecodesInBounds, hover]
  simp

end Libpomelo
