import Libpomelo.PbSizing

/-!
# Messages of the wrong kind

Nobody looks at a message before `pb_encode` does, and `pb_encode` does not look at its kinds
either: it asks the JSON library for a number or a text and gets `0` or `NULL` from a value that
has none.

* `KindsMsg` is a message in which every member is a field and has a value of the field's kind,
  at every depth.
* `obstacles` is what lies in the way of the encoder, in its order: a name that the schema does
  not know, for which it returns `0`, or a `NULL` that it would compare or measure. The first
  one decides (`stop_encoding`).

Between the two lie the values that are no obstacle and of the wrong kind all the same.
-/

namespace Libpomelo

/-! ## Kinds -/

/-- A value of the kind of a primitive type. -/
def IsKind : PbType → Json → Prop
  | .string, v => ∃ s, v = .str s
  | _, v => (∃ i, v = .int i) ∨ ∃ x, v = .real x

/-- A value of the kind of a field, with `sub` the messages of a level. -/
def KindsValue (gprotos protos proto v : Json) (sub : Json → Prop) : Prop :=
  ∃ type, fieldType proto = some type ∧
    ((∃ t, pbGetType type = some t ∧ IsKind t v) ∨
      pbGetType type = none ∧ ∃ level, resolveType gprotos protos type = some level ∧ sub level)

mutual

/-- **A message of the right kinds**, for the level `protos`. -/
def KindsMsg (gprotos : Json) : Json → Json → Prop
  | .obj kvs, protos => KindsMembers gprotos kvs protos
  | _, _ => False
termination_by structural x => x

/-- Every member is a field of the level. -/
def KindsMembers (gprotos : Json) : List (String × Json) → Json → Prop
  | [], _ => True
  | (key, v) :: kvs, protos =>
    (∃ proto option, IsField protos key proto ∧ fieldOption proto = some option ∧
      if option = "required" ∨ option = "optional" then
        KindsValue gprotos protos proto v fun level => KindsMsg gprotos v level
      else option = "repeated" ∧ KindsArray gprotos v protos proto) ∧
      KindsMembers gprotos kvs protos
termination_by structural x => x

/-- The value of a repeated field is an array. -/
def KindsArray (gprotos : Json) : Json → Json → Json → Prop
  | .arr xs, protos, proto =>
    (∃ type, fieldType proto = some type) ∧ KindsElems gprotos xs protos proto
  | _, _, _ => False
termination_by structural x => x

/-- Its elements are values of the field. -/
def KindsElems (gprotos : Json) : List Json → Json → Json → Prop
  | [], _, _ => True
  | x :: xs, protos, proto =>
    (KindsValue gprotos protos proto x fun level => KindsMsg gprotos x level) ∧
      KindsElems gprotos xs protos proto
termination_by structural x => x

end

/-! ## What lies in the way -/

/-- The tag of a field: its type is measured. -/
def obstaclesTag (proto : Json) : List PbStop :=
  if fieldType proto = none then [.nullString] else []

/-- A value, with `sub` the obstacles in it as a message of a level. -/
def obstaclesValue (gprotos protos proto v : Json) (sub : Json → List PbStop) : List PbStop :=
  match fieldType proto with
  | none => [.nullString]
  | some type =>
    match pbGetType type with
    | some .string => if jsonStringValue (some v) = none then [.nullString] else []
    | some _ => []
    | none =>
      match jsonObjectGet (some protos) "__messages" with
      | none => []
      | some messages =>
        match resolveMessage gprotos messages type with
        | none => [.refused]
        | some level => sub level

mutual

/-- **The obstacles in a message**, in the order of its members and depth first. -/
def obstacles (gprotos : Json) : Json → Json → List PbStop
  | .obj kvs, protos => obstaclesMembers gprotos kvs protos
  | _, _ => []
termination_by structural x => x

/-- An unknown key is refused; the option of a known one is compared. -/
def obstaclesMembers (gprotos : Json) : List (String × Json) → Json → List PbStop
  | [], _ => []
  | (key, v) :: kvs, protos =>
    (match jsonObjectGet (some protos) key with
      | none => [.refused]
      | some proto =>
        match fieldOption proto with
        | none => [.nullString]
        | some option =>
          if option = "required" ∨ option = "optional" then
            obstaclesTag proto ++
              obstaclesValue gprotos protos proto v fun level => obstacles gprotos v level
          else if option = "repeated" then obstaclesArray gprotos v protos proto
          else []) ++
      obstaclesMembers gprotos kvs protos
termination_by structural x => x

/-- An array; another value is left out. -/
def obstaclesArray (gprotos : Json) : Json → Json → Json → List PbStop
  | .arr xs, protos, proto => obstaclesTag proto ++ obstaclesElems gprotos xs protos proto
  | _, _, _ => []
termination_by structural x => x

/-- The elements of an array. -/
def obstaclesElems (gprotos : Json) : List Json → Json → Json → List PbStop
  | [], _, _ => []
  | x :: xs, protos, proto =>
    (obstaclesValue gprotos protos proto x fun level => obstacles gprotos x level) ++
      obstaclesElems gprotos xs protos proto
termination_by structural x => x

end

/-! ## The first obstacle decides -/

/-- Why an encoding stops, if it does. -/
def Encoding.stop : Encoding → Option PbStop
  | .ok _ => none
  | .error (stop, _) => some stop

theorem Encoding.stop_andThen (r r' : Encoding) :
    (r.andThen r').stop = r.stop.or r'.stop := by
  obtain ⟨stop, v⟩ | v := r <;> obtain ⟨stop', w⟩ | w := r' <;> rfl

theorem Encoding.stop_prefixed (r : Encoding) : r.prefixed.stop = r.stop := by
  obtain ⟨stop, v⟩ | v := r <;> rfl

section Stop

variable {gprotos protos proto v : Json}

theorem stop_encodingTag (proto : Json) :
    (encodingTag proto).stop = (obstaclesTag proto).head? := by
  rw [encodingTag, obstaclesTag]
  cases fieldType proto <;> rfl

theorem stop_encodingValue {enc : Json → Encoding} {sub : Json → List PbStop}
    (h : ∀ level, (enc level).stop = (sub level).head?) :
    (encodingValue gprotos protos proto v enc).stop =
      (obstaclesValue gprotos protos proto v sub).head? := by
  rw [encodingValue, obstaclesValue]
  cases fieldType proto with
  | none => rfl
  | some type =>
    dsimp only
    cases pbGetType type with
    | none =>
      dsimp only
      cases jsonObjectGet (some protos) "__messages" with
      | none => rfl
      | some messages =>
        dsimp only
        cases resolveMessage gprotos messages type with
        | none => rfl
        | some level => exact (Encoding.stop_prefixed _).trans (h level)
    | some t =>
      cases t with
      | string =>
        simp only [encodingScalar]
        cases jsonStringValue (some v) <;> rfl
      | uInt32 => rfl
      | int32 => rfl
      | sInt32 => rfl
      | float => rfl
      | double => rfl

theorem stop_encodingArrayHead (proto : Json) {type : String} (htype : fieldType proto = some type)
    (packed : Bool) (len : ℕ) : (encodingArrayHead proto packed len).stop = none := by
  cases packed with
  | false => rfl
  | true =>
    rw [encodingArrayHead, if_pos rfl, Encoding.stop_andThen, stop_encodingTag, obstaclesTag, htype]
    rfl

mutual

/-- **The encoder stops at the first obstacle**, if there is room up to it. -/
theorem stop_encoding (gprotos : Json) : ∀ (msg protos : Json),
    (encoding gprotos msg protos).stop = (obstacles gprotos msg protos).head?
  | .obj kvs, protos => by
    rw [encoding, obstacles]
    exact stop_encodingFields gprotos kvs protos
  | .null, _ => rfl
  | .bool _, _ => rfl
  | .int _, _ => rfl
  | .real _, _ => rfl
  | .str _, _ => rfl
  | .arr _, _ => rfl
termination_by structural x => x

theorem stop_encodingFields (gprotos : Json) : ∀ (kvs : List (String × Json)) (protos : Json),
    (encodingFields gprotos kvs protos).stop = (obstaclesMembers gprotos kvs protos).head?
  | [], _ => rfl
  | (key, v) :: kvs, protos => by
    have hrest := stop_encodingFields gprotos kvs protos
    have hsub : ∀ level, (encoding gprotos v level).stop = (obstacles gprotos v level).head? :=
      fun level => stop_encoding gprotos v level
    have harray : ∀ proto, (encodingArray gprotos v protos proto).stop =
        (obstaclesArray gprotos v protos proto).head? :=
      fun proto => stop_encodingArray gprotos v protos proto
    -- the first member that stops, in both
    rw [encodingFields, obstaclesMembers, Encoding.stop_andThen, List.head?_append, hrest]
    congr 1
    cases jsonObjectGet (some protos) key with
    | none => rfl
    | some proto =>
      dsimp only
      cases fieldOption proto with
      | none => rfl
      | some option =>
        dsimp only
        split
        · rw [Encoding.stop_andThen, List.head?_append, stop_encodingTag,
            stop_encodingValue hsub]
        · split
          · exact harray proto
          · rfl
termination_by structural x => x

theorem stop_encodingArray (gprotos : Json) : ∀ (v protos proto : Json),
    (encodingArray gprotos v protos proto).stop =
      (obstaclesArray gprotos v protos proto).head?
  | .arr xs, protos, proto => by
    have helems := fun type => stop_encodingElems gprotos xs protos proto type
    rw [encodingArray, obstaclesArray, List.head?_append, obstaclesTag]
    rcases htype : fieldType proto with _ | type
    · rfl
    · dsimp only
      rw [Encoding.stop_andThen, stop_encodingArrayHead proto htype, if_neg (Option.some_ne_none _)]
      exact helems type htype _
  | .null, _, _ => rfl
  | .bool _, _, _ => rfl
  | .int _, _, _ => rfl
  | .real _, _, _ => rfl
  | .str _, _, _ => rfl
  | .obj _, _, _ => rfl
termination_by structural x => x

theorem stop_encodingElems (gprotos : Json) : ∀ (xs : List Json) (protos proto : Json)
    (type : String), fieldType proto = some type → ∀ packed : Bool,
      (encodingElems gprotos xs protos proto packed).stop =
        (obstaclesElems gprotos xs protos proto).head?
  | [], _, _, _, _, _ => rfl
  | x :: xs, protos, proto, type, htype, packed => by
    have hrest := stop_encodingElems gprotos xs protos proto type htype packed
    have hsub : ∀ level, (encoding gprotos x level).stop = (obstacles gprotos x level).head? :=
      fun level => stop_encoding gprotos x level
    have htag : Encoding.stop (if packed then .ok [] else encodingTag proto) = none := by
      cases packed with
      | true => rfl
      | false =>
        rw [if_neg Bool.false_ne_true, stop_encodingTag, obstaclesTag, htype]
        rfl
    rw [encodingElems, obstaclesElems, Encoding.stop_andThen, Encoding.stop_andThen,
      List.head?_append, htag, hrest, stop_encodingValue hsub]
    rfl
termination_by structural x => x

end

/-! ## The right kinds have no obstacles -/

theorem KindsValue.no_obstacles {P : Json → Prop} {sub : Json → List PbStop}
    (h : KindsValue gprotos protos proto v P) (hsub : ∀ level, P level → sub level = []) :
    obstaclesValue gprotos protos proto v sub = [] := by
  obtain ⟨type, htype, ⟨t, ht, hkind⟩ | ⟨hnone, level, hlevel, hP⟩⟩ := h
  · rw [obstaclesValue, htype]
    dsimp only
    rw [ht]
    cases t with
    | string =>
      obtain ⟨s, rfl⟩ := hkind
      rfl
    | uInt32 => rfl
    | int32 => rfl
    | sInt32 => rfl
    | float => rfl
    | double => rfl
  · obtain ⟨messages, hmessages, hres⟩ := Option.bind_eq_some_iff.mp hlevel
    simp only [obstaclesValue, htype, hnone, hmessages, hres]
    exact hsub level hP

theorem KindsValue.tag {P : Json → Prop} (h : KindsValue gprotos protos proto v P) :
    obstaclesTag proto = [] := by
  obtain ⟨type, htype, -⟩ := h
  rw [obstaclesTag, htype]
  rfl

mutual

/-- **No obstacle lies in a message of the right kinds.** -/
theorem KindsMsg.no_obstacles (gprotos : Json) : ∀ (msg protos : Json),
    KindsMsg gprotos msg protos → obstacles gprotos msg protos = []
  | .obj kvs, protos, h => by
    rw [KindsMsg] at h
    rw [obstacles]
    exact KindsMembers.no_obstacles gprotos kvs protos h
  | .null, _, _ => rfl
  | .bool _, _, _ => rfl
  | .int _, _, _ => rfl
  | .real _, _, _ => rfl
  | .str _, _, _ => rfl
  | .arr _, _, _ => rfl
termination_by structural x => x

theorem KindsMembers.no_obstacles (gprotos : Json) : ∀ (kvs : List (String × Json))
    (protos : Json), KindsMembers gprotos kvs protos → obstaclesMembers gprotos kvs protos = []
  | [], _, _ => rfl
  | (key, v) :: kvs, protos, h => by
    have hsub := fun level => KindsMsg.no_obstacles gprotos v level
    have harray := fun proto => KindsArray.no_obstacles gprotos v protos proto
    rw [KindsMembers] at h
    obtain ⟨⟨proto, option, ⟨hkey, -, -⟩, hoption, hv⟩, hrest⟩ := h
    simp only [obstaclesMembers, hkey, hoption]
    rw [KindsMembers.no_obstacles gprotos kvs protos hrest, List.append_nil]
    split at hv
    · next hsingle =>
      rw [if_pos hsingle, hv.tag, hv.no_obstacles hsub]
      rfl
    · next hsingle =>
      obtain ⟨hrepeated, hv⟩ := hv
      rw [if_neg hsingle, if_pos hrepeated]
      exact harray proto hv
termination_by structural x => x

theorem KindsArray.no_obstacles (gprotos : Json) : ∀ (v protos proto : Json),
    KindsArray gprotos v protos proto → obstaclesArray gprotos v protos proto = []
  | .arr xs, protos, proto, h => by
    rw [KindsArray] at h
    obtain ⟨⟨type, htype⟩, helems⟩ := h
    rw [obstaclesArray, KindsElems.no_obstacles gprotos xs protos proto helems, obstaclesTag, htype]
    rfl
  | .null, _, _, _ => rfl
  | .bool _, _, _, _ => rfl
  | .int _, _, _, _ => rfl
  | .real _, _, _, _ => rfl
  | .str _, _, _, _ => rfl
  | .obj _, _, _, _ => rfl
termination_by structural x => x

theorem KindsElems.no_obstacles (gprotos : Json) : ∀ (xs : List Json) (protos proto : Json),
    KindsElems gprotos xs protos proto → obstaclesElems gprotos xs protos proto = []
  | [], _, _, _ => rfl
  | x :: xs, protos, proto, h => by
    have hsub := fun level => KindsMsg.no_obstacles gprotos x level
    rw [KindsElems] at h
    obtain ⟨hx, hxs⟩ := h
    rw [obstaclesElems, hx.no_obstacles hsub, KindsElems.no_obstacles gprotos xs protos proto hxs]
    rfl
termination_by structural x => x

end

end Stop

/-! ## The encoder on a buffer -/

section Buffer

variable {gprotos protos msg : Json} {len : ℕ} {stop : PbStop}

/-- A buffer that is large enough: the first obstacle is met. -/
theorem pcPbEncode_stop (hlen : len < 2 ^ 63) (h : (encoding gprotos msg protos).size ≤ len)
    (hstop : (encoding gprotos msg protos).stop = some stop) :
    ∃ s, pcPbEncode len gprotos protos msg = .error (stop, s) := by
  rcases henc : encoding gprotos msg protos with ⟨stop', v⟩ | w
  · rw [henc] at h hstop
    obtain rfl := Option.some.inj hstop
    exact pcPbEncode_of_stop hlen henc h
  · rw [henc] at hstop
    cases hstop

/-- The same without obstacles. -/
theorem pcPbEncode_done (hlen : len < 2 ^ 63) (h : (encoding gprotos msg protos).size ≤ len)
    (hstop : (encoding gprotos msg protos).stop = none) :
    ∃ w, pcPbEncode len gprotos protos msg = .ok w := by
  rcases henc : encoding gprotos msg protos with ⟨stop', v⟩ | w
  · rw [henc] at hstop
    cases hstop
  · rw [henc] at h
    exact ⟨w, pcPbEncode_of_encoding henc hlen h⟩

/-- The encoder returns `0` or `1`, with no `NULL` string on its way and no `memcpy` beyond a
buffer, and `1` only on a message of the right kinds. -/
def EncodesKinds (len : ℕ) (gprotos protos msg : Json) : Prop :=
  (∀ stop s, pcPbEncode len gprotos protos msg = .error (stop, s) → stop = .refused) ∧
    ∀ w, pcPbEncode len gprotos protos msg = .ok w → KindsMsg gprotos msg protos

/-- On a run that stops, the first part is what counts. -/
theorem encodesKinds_of_stop
    (h : ∃ s, pcPbEncode len gprotos protos msg = .error (stop, s)) :
    EncodesKinds len gprotos protos msg ↔ stop = .refused := by
  obtain ⟨s, hs⟩ := h
  constructor
  · exact fun h => h.1 stop s hs
  · rintro rfl
    exact ⟨fun _ _ h => (Prod.mk.inj (Except.error.inj (hs.symm.trans h))).1.symm, by simp [hs]⟩

/-- On one that succeeds, the second. -/
theorem encodesKinds_of_ok (h : ∃ w, pcPbEncode len gprotos protos msg = .ok w) :
    EncodesKinds len gprotos protos msg ↔ KindsMsg gprotos msg protos := by
  obtain ⟨w, hw⟩ := h
  exact ⟨fun h => h.2 w hw, fun hkinds => ⟨by simp [hw], fun _ _ => hkinds⟩⟩

/-- **When the encoder is safe with a message**, for every schema, every JSON value as message
and every buffer. Where the buffer has room for the bytes in front of the first obstacle, the
message must have the right kinds, or the obstacle be a name that the schema does not know;
where it has not, the first write without room must be refused. -/
theorem encodesKinds_iff (gprotos protos msg : Json) (hlen : len < 2 ^ 63) :
    EncodesKinds len gprotos protos msg ↔
      (encoding gprotos msg protos).size ≤ len ∧
          (KindsMsg gprotos msg protos ∨ (obstacles gprotos msg protos).head? = some .refused) ∨
        len < (encoding gprotos msg protos).size ∧
          shortage gprotos msg protos (pbOstreamFromBuffer len) = .refused := by
  have hstop := stop_encoding gprotos msg protos
  obtain hshort | hroom := Nat.lt_or_ge len (encoding gprotos msg protos).size
  · rw [encodesKinds_of_stop (pcPbEncode_of_short hlen hshort)]
    simp only [hshort, Nat.not_le.mpr hshort, false_and, true_and, false_or]
  · simp only [hroom, Nat.not_lt.mpr hroom, false_and, true_and, or_false]
    rcases hfirst : (obstacles gprotos msg protos).head? with _ | stop
    · rw [encodesKinds_of_ok (pcPbEncode_done hlen hroom (hstop.trans hfirst))]
      simp only [reduceCtorEq, or_false]
    · -- a message with an obstacle is not of the right kinds
      have hkinds : ¬ KindsMsg gprotos msg protos := by
        intro hkinds
        rw [hkinds.no_obstacles] at hfirst
        cases hfirst
      rw [encodesKinds_of_stop (pcPbEncode_stop hlen hroom (hstop.trans hfirst))]
      simp only [hkinds, false_or, Option.some.injEq]

end Buffer

/-- A level with a text and a number. -/
def entryLevel : Json :=
  .obj [("__messages", .obj []), ("__tags", .obj [("1", .str "text"), ("2", .str "count")]),
    ("text", .obj [("option", .str "optional"), ("type", .str "string"), ("tag", .int 1)]),
    ("count", .obj [("option", .str "optional"), ("type", .str "uInt32"), ("tag", .int 2)])]

/-- A message of the right kinds. -/
theorem encodesKinds_iff_entry :
    EncodesKinds 10 .null entryLevel (.obj [("text", .str "a"), ("count", .int 1)]) ↔
      (encoding .null (.obj [("text", .str "a"), ("count", .int 1)]) entryLevel).size ≤ 10 ∧
          (KindsMsg .null (.obj [("text", .str "a"), ("count", .int 1)]) entryLevel ∨
            (obstacles .null (.obj [("text", .str "a"), ("count", .int 1)]) entryLevel).head? =
              some .refused) ∨
        10 < (encoding .null (.obj [("text", .str "a"), ("count", .int 1)]) entryLevel).size ∧
          shortage .null (.obj [("text", .str "a"), ("count", .int 1)]) entryLevel
            (pbOstreamFromBuffer 10) = .refused :=
  encodesKinds_iff .null entryLevel (.obj [("text", .str "a"), ("count", .int 1)]) (by decide)

theorem conforming_entryLevel (gprotos : Json) : ConformingSchema gprotos entryLevel := by
  refine ⟨fun level => level = entryLevel, rfl, ?_⟩
  rintro _ rfl
  refine ⟨⟨.obj [], rfl⟩, .obj [("1", .str "text"), ("2", .str "count")], rfl, ?_⟩
  rintro key proto ⟨hget, hmessages, htags⟩
  simp only [entryLevel, jsonObjectGet_obj, List.lookup_cons, List.lookup_nil,
    beq_eq_false_iff_ne.mpr hmessages, beq_eq_false_iff_ne.mpr htags] at hget
  split at hget
  · next heq =>
    obtain rfl := beq_iff_eq.mp heq
    obtain rfl := Option.some.inj hget
    exact ⟨.inr (.inl rfl), ⟨1, le_rfl, by decide, rfl, rfl⟩, "string", rfl,
      fun hnone => absurd hnone (by decide)⟩
  · split at hget
    · next heq =>
      obtain rfl := beq_iff_eq.mp heq
      obtain rfl := Option.some.inj hget
      exact ⟨.inr (.inl rfl), ⟨2, by decide, by decide, rfl, rfl⟩, "uInt32", rfl,
        fun hnone => absurd hnone (by decide)⟩
    · cases hget

/-- The text of `n` letters has `n` bytes. -/
theorem length_utf8Bytes_letters (n : ℕ) :
    (utf8Bytes (String.ofList (List.replicate n 'a'))).length = n := by
  rw [utf8Bytes, String.toByteArray_ofList]
  show (List.replicate n 'a').utf8Encode.size = n
  induction n with
  | zero => rfl
  | succ n ih =>
    rw [List.replicate_succ, List.utf8Encode_cons, List.utf8Encode_singleton, ByteArray.size_append,
      List.size_toByteArray, String.length_utf8EncodeChar, ih, Nat.add_comm]
    rfl

/-- The field of the text. -/
theorem entryLevel_text : ∃ proto, jsonObjectGet (some entryLevel) "text" = some proto ∧
    fieldOption proto = some "optional" ∧ fieldType proto = some "string" ∧
    encodingTag proto = .ok [10] :=
  ⟨_, rfl, rfl, rfl, by decide +kernel⟩

/-- A text behind its tag and its length. -/
theorem encoding_text {text : String} {n : ℕ} (hn : stringLength (utf8Bytes text).length = n) :
    encoding .null (.obj [("text", .str text)]) entryLevel =
      .ok ([10] ++ (varintBytes (n % 2 ^ 64) ++ copied (utf8Bytes text) n)) := by
  obtain ⟨proto, hget, hoption, htype, htag⟩ := entryLevel_text
  have hkind : pbGetType "string" = some .string := by decide
  simp only [encoding, encodingFields, hget, hoption, or_true, if_true, htag, encodingValue, htype,
    hkind, encodingScalar, jsonStringValue, hn, Encoding.andThen, List.append_nil]

/-- Without room for it, one of the three is short. -/
theorem shortage_text {text : String} {n : ℕ} (hn : stringLength (utf8Bytes text).length = n)
    {s : OStream}
    (hr : ¬ s.Room ([10] ++ (varintBytes (n % 2 ^ 64) ++ copied (utf8Bytes text) n)).length) :
    shortage .null (.obj [("text", .str text)]) entryLevel s =
      shortThen (.ok [10]) (shortWrite 1) (shortString n) s := by
  have henc : encodingFields .null [("text", .str text)] entryLevel = _ := encoding_text hn
  obtain ⟨proto, hget, hoption, htype, htag⟩ := entryLevel_text
  have hkind : pbGetType "string" = some .string := by decide
  simp only [shortage, shortageFields, henc, shortThen, if_neg hr, hget, hoption, or_true, if_true,
    shortageTag, htag, shortageValue, htype, hkind, shortageScalar, jsonStringValue, hn]
  rfl

/-- The length of a text of `2 ^ 32 - 1` bytes is kept as `-1`: behind eleven bytes the sum is
`10`, which passes the test of every buffer with room for these. -/
theorem overruns_hugeText {text : String} (htext : (utf8Bytes text).length = 2 ^ 32 - 1) {len : ℕ}
    (hroom : 11 ≤ len) (hlen : len < 2 ^ 63) :
    ∃ s, pcPbEncode len .null entryLevel (.obj [("text", .str text)]) = .error (.overrun, s) := by
  have hlength : stringLength (utf8Bytes text).length = 2 ^ 64 - 1 := by
    rw [htext]
    decide
  have hvarint : (varintBytes (stringLength (utf8Bytes text).length % 2 ^ 64)).length = 10 := by
    rw [hlength]
    decide +kernel
  generalize hn : stringLength (utf8Bytes text).length = n at hlength hvarint
  have henc := encoding_text hn
  have hsize : len < (encoding .null (.obj [("text", .str text)]) entryLevel).size := by
    rw [henc, Encoding.size]
    simp only [List.length_append, length_copied]
    omega
  have hwhole : ¬ (pbOstreamFromBuffer len).Room
      ([10] ++ (varintBytes (n % 2 ^ 64) ++ copied (utf8Bytes text) n)).length := fun hr => by
    rw [henc] at hsize
    exact Nat.not_le.mpr hsize (room_fromBuffer.mp hr)
  -- the tag and the length have room
  have htag : (pbOstreamFromBuffer len).Room ([10] : Bytes).length :=
    room_fromBuffer.mpr (by show 1 ≤ len; omega)
  have hprefix : ((pbOstreamFromBuffer len).emit [10]).Room (varintBytes (n % 2 ^ 64)).length := by
    rw [hvarint]
    exact fun _ => ⟨by show 1 + 10 ≤ len; omega, by show 1 + 10 ≤ len; omega⟩
  have hcount : (((pbOstreamFromBuffer len).emit [10]).emit
      (varintBytes (n % 2 ^ 64))).bytesWritten = 11 := by
    show (1 + (varintBytes (n % 2 ^ 64)).length) % 2 ^ 64 = 11
    rw [hvarint]
    rfl
  have hlimit : (((pbOstreamFromBuffer len).emit [10]).emit (varintBytes (n % 2 ^ 64))).maxSize =
      len := rfl
  have hsum : ¬ len < (11 + n) % 2 ^ 64 := by omega
  obtain ⟨s, hs⟩ := pcPbEncode_of_short hlen hsize
  rw [shortage_text hn hwhole, shortThen, if_pos htag, shortString, shortThen, if_pos hprefix,
    shortWrite, hcount, hlimit, if_neg hsum] at hs
  exact ⟨s, hs⟩

/-- A bookkeeping key and a number for a text are compared and measured as `NULL`; a text for a
number is encoded as zero; and the text of `2 ^ 32 - 1` letters, which is of the right kind,
is copied beyond the buffer. -/
theorem not_encodesKinds_entry :
    ConformingSchema .null entryLevel ∧
      ¬ EncodesKinds 10 .null entryLevel (.obj [("__tags", .null)]) ∧
      ¬ EncodesKinds 10 .null entryLevel (.obj [("text", .int 1)]) ∧
      ¬ EncodesKinds 10 .null entryLevel (.obj [("count", .str "a")]) ∧
      ¬ EncodesKinds 11 .null entryLevel
        (.obj [("text", .str (String.ofList (List.replicate (2 ^ 32 - 1) 'a')))]) := by
  refine ⟨conforming_entryLevel _, ?_, ?_, ?_, ?_⟩
  · rintro ⟨hstop, -⟩
    cases hstop .nullString _ rfl
  · rintro ⟨hstop, -⟩
    have hnull : pcPbEncode 10 .null entryLevel (.obj [("text", .int 1)]) =
        .error (.nullString, ⟨true, [10], 10, 10, 1⟩) := by
      decide +kernel
    cases hstop _ _ hnull
  · rintro ⟨-, hok⟩
    have hencoded : pcPbEncode 10 .null entryLevel (.obj [("count", .str "a")]) = .ok [16, 0] := by
      decide +kernel
    have hkinds := hok _ hencoded
    rw [KindsMsg, KindsMembers] at hkinds
    obtain ⟨⟨proto, option, ⟨hproto, -⟩, hoption, hv⟩, -⟩ := hkinds
    obtain rfl := Option.some.inj hproto
    obtain rfl := Option.some.inj hoption
    rw [if_pos (.inr rfl)] at hv
    obtain ⟨type, htype, ⟨t, ht, hkind⟩ | ⟨hnone, -⟩⟩ := hv
    · obtain rfl := Option.some.inj htype
      obtain rfl := Option.some.inj ht
      obtain ⟨i, hi⟩ | ⟨x, hx⟩ := hkind
      · cases hi
      · cases hx
    · obtain rfl := Option.some.inj htype
      cases hnone
  · rintro ⟨hstop, -⟩
    obtain ⟨s, hover⟩ := overruns_hugeText (length_utf8Bytes_letters _) le_rfl (by decide)
    cases hstop _ _ hover

end Libpomelo
