import Libpomelo.MessageRoundtrip
import Libpomelo.Protocol

/-!
# Route codes on the wire and in the tables

The handshake installs a dictionary from routes to codes. A route with a code
travels as two bytes, and the other side of the table, from codes to routes, turns
the code back into the route. Three pieces of code have to agree on how wide a code
is:

* `msgEncodeCode` and `msgDecode` carry sixteen bits (`msgDecode_msgEncodeCode`);
* `setupRouteDictionary` files a route under the low byte of its code;
* `resolveDictionary` looks the low byte up.

So two routes whose codes agree in the low byte are filed under one key, and the one
visited last by the table builder hides the other (`Overwritten`).
-/

namespace Libpomelo

/-! ## The dictionary -/

/-- A route dictionary as a handshake response carries it: distinct routes (jansson
allows no zero byte in a key), with pairwise distinct codes from `1` to `65535`, in the
order in which `json_object_foreach` visits them. -/
structure RouteDict : Type where
  /-- routes and codes -/
  entries : List (String × ℤ)
  nodup_routes : (entries.map Prod.fst).Nodup
  nodup_codes : (entries.map Prod.snd).Nodup
  code_pos : ∀ e ∈ entries, 1 ≤ e.2
  code_lt : ∀ e ∈ entries, e.2 < 2 ^ 16
  route_text : ∀ e ∈ entries, 0 ∉ utf8Bytes e.1

namespace RouteDict

variable (d : RouteDict)

/-- The member `dict` of the response. -/
def json : Json := .obj (d.entries.map fun e => (e.1, .int e.2))

/-- The table builder visits, after `route`, another one whose code has the same low
byte. -/
def Overwritten (route : String) : Prop :=
  ∃ before code after, d.entries = before ++ (route, code) :: after ∧
    ∃ e ∈ after, e.2 % 0x100 = code % 0x100

end RouteDict

/-- The table after filing the routes of `es` on top of `kvs`. -/
def fileRoutes (kvs : List (String × Json)) (es : List (String × ℤ)) : List (String × Json) :=
  es.foldl (fun kvs e => setMember (dictionaryKey (.int e.2)) (.str e.1) kvs) kvs

theorem foldl_addRoute :
    ∀ (es : List (String × ℤ)) (kvs : List (String × Json)),
      (∀ e ∈ es, 0 ∉ utf8Bytes e.1) →
      (es.map fun e => (e.1, Json.int e.2)).foldl addRoute (.obj kvs) =
        .obj (fileRoutes kvs es) := by
  intro es
  induction es with
  | nil =>
    intro kvs _
    rfl
  | cons e es ih =>
    intro kvs htext
    have hstr := jsonString_utf8Bytes (htext e (List.mem_cons_self ..))
    rw [List.map_cons, List.foldl_cons, addRoute, hstr, jsonObjectSet]
    exact ih _ fun e' he' => htext e' (List.mem_cons_of_mem _ he')

theorem dictionaryKey_int_inj {a b : ℤ} :
    dictionaryKey (.int a) = dictionaryKey (.int b) ↔ a % 0x100 = b % 0x100 := by
  constructor
  · intro h
    have hnat := decimal_injective h
    simp only [jsonIntegerValue] at hnat
    omega
  · intro h
    simp only [dictionaryKey, jsonIntegerValue, h]

/-- Routes filed under other keys leave an entry alone. -/
theorem lookup_fileRoutes_of_ne {code : ℤ} :
    ∀ (es : List (String × ℤ)) (kvs : List (String × Json)),
      (∀ e ∈ es, e.2 % 0x100 ≠ code % 0x100) →
      (fileRoutes kvs es).lookup (dictionaryKey (.int code)) =
        kvs.lookup (dictionaryKey (.int code)) := by
  intro es
  induction es with
  | nil =>
    intro kvs _
    rfl
  | cons e es ih =>
    intro kvs hne
    have hkey : dictionaryKey (.int code) ≠ dictionaryKey (.int e.2) := by
      intro heq
      exact hne e (List.mem_cons_self ..) (dictionaryKey_int_inj.1 heq).symm
    rw [fileRoutes, List.foldl_cons]
    refine (ih _ fun e' he' => hne e' (List.mem_cons_of_mem _ he')).trans ?_
    exact lookup_setMember_of_ne hkey _ _

/-- What is found under a key that some route of `es` is filed under belongs to one of
them. -/
theorem lookup_fileRoutes_of_mem {code : ℤ} :
    ∀ (es : List (String × ℤ)) (kvs : List (String × Json)),
      (∃ e ∈ es, e.2 % 0x100 = code % 0x100) →
      ∃ e ∈ es, (fileRoutes kvs es).lookup (dictionaryKey (.int code)) = some (.str e.1) := by
  intro es
  induction es with
  | nil =>
    rintro kvs ⟨e, he, -⟩
    exact absurd he (List.not_mem_nil)
  | cons e es ih =>
    rintro kvs ⟨e', he', hcode⟩
    by_cases hlater : ∃ e ∈ es, e.2 % 0x100 = code % 0x100
    · obtain ⟨e₁, he₁, hlook⟩ := ih (setMember (dictionaryKey (.int e.2)) (.str e.1) kvs) hlater
      exact ⟨e₁, List.mem_cons_of_mem _ he₁, hlook⟩
    · -- the head is the last one with this key
      push Not at hlater
      have hhead : e.2 % 0x100 = code % 0x100 := by
        rcases List.mem_cons.1 he' with rfl | hmem
        · exact hcode
        · exact absurd hcode (hlater e' hmem)
      refine ⟨e, List.mem_cons_self .., ?_⟩
      rw [fileRoutes, List.foldl_cons]
      apply (lookup_fileRoutes_of_ne es _ hlater).trans
      rw [dictionaryKey_int_inj.2 hhead]
      exact lookup_setMember_self _ _ _

/-! ## Resolving -/

section Resolve

variable {d : RouteDict}

theorem RouteDict.code_unique {route : String} {c c' : ℤ} (h : (route, c) ∈ d.entries)
    (h' : (route, c') ∈ d.entries) : c = c' :=
  (Prod.mk.inj (List.inj_on_of_nodup_map d.nodup_routes h h' rfl)).2

theorem resolveDictionary_setup (t : Tables) {c : ℤ} (hc : 0 ≤ c) :
    resolveDictionary (setupRouteDictionary t d.json) c.toNat =
      jsonStringValue ((fileRoutes [] d.entries).lookup (dictionaryKey (.int c))) := by
  have hkey : decimal (c.toNat &&& 0xff) = dictionaryKey (.int c) := by
    rw [Nat.and_two_pow_sub_one_eq_mod c.toNat 8, dictionaryKey, jsonIntegerValue]
    congr 1
    omega
  simp only [resolveDictionary, setupRouteDictionary, RouteDict.json, jsonObjectIter,
    foldl_addRoute _ _ d.route_text, jsonObjectGet_obj, hkey]

/-- The route visited at one place of the dictionary is found again exactly when no
later one has its low byte. -/
theorem resolveDictionary_split (t : Tables) {route : String} {c : ℤ}
    {before after : List (String × ℤ)} (hsplit : d.entries = before ++ (route, c) :: after) :
    resolveDictionary (setupRouteDictionary t d.json) c.toNat = some route ↔
      ∀ e ∈ after, e.2 % 0x100 ≠ c % 0x100 := by
  have hmem : (route, c) ∈ d.entries := by
    rw [hsplit]
    exact List.mem_append_right _ (List.mem_cons_self ..)
  have hfile : fileRoutes [] d.entries =
      fileRoutes (setMember (dictionaryKey (.int c)) (.str route) (fileRoutes [] before)) after := by
    rw [hsplit, fileRoutes, List.foldl_append, List.foldl_cons]
    rfl
  rw [resolveDictionary_setup t (by linarith [d.code_pos _ hmem]), hfile]
  constructor
  · intro hres e he heq
    obtain ⟨e', he', hlook⟩ := lookup_fileRoutes_of_mem after
      (setMember (dictionaryKey (.int c)) (.str route) (fileRoutes [] before)) ⟨e, he, heq⟩
    rw [hlook, jsonStringValue_str] at hres
    -- a second entry for `route` behind the first
    have hnd := d.nodup_routes
    rw [hsplit, List.map_append, List.map_cons, List.nodup_append, List.nodup_cons] at hnd
    refine hnd.2.1.1 (List.mem_map.2 ⟨e', he', ?_⟩)
    exact Option.some.inj hres
  · intro hne
    rw [lookup_fileRoutes_of_ne after _ hne, lookup_setMember_self, jsonStringValue_str]

theorem resolveDictionary_iff (t : Tables) {route : String} {c : ℤ}
    (hmem : (route, c) ∈ d.entries) :
    resolveDictionary (setupRouteDictionary t d.json) c.toNat = some route ↔
      ¬ d.Overwritten route := by
  constructor
  · rintro hres ⟨before, c', after, hsplit, e, he, heq⟩
    have hmem' : (route, c') ∈ d.entries := by
      rw [hsplit]
      exact List.mem_append_right _ (List.mem_cons_self ..)
    obtain rfl := d.code_unique hmem hmem'
    exact (resolveDictionary_split t hsplit).1 hres e he heq
  · intro hnot
    obtain ⟨before, after, hsplit⟩ := List.append_of_mem hmem
    apply (resolveDictionary_split t hsplit).2
    intro e he heq
    exact hnot ⟨before, c, after, hsplit, e, he, heq⟩

/-- No route is overwritten exactly when the low bytes of the codes are distinct; the
order of the dictionary plays no part. -/
theorem RouteDict.forall_not_overwritten_iff :
    (∀ e ∈ d.entries, ¬ d.Overwritten e.1) ↔
      (d.entries.map Prod.snd).Pairwise fun a b => a % 0x100 ≠ b % 0x100 := by
  rw [List.pairwise_map]
  constructor
  · intro hall
    apply List.pairwise_iff_forall_sublist.2
    intro a b hsub heq
    obtain ⟨front, back, hl, ha, hb⟩ := List.cons_sublist_iff.1 hsub
    obtain ⟨before, mid, rfl⟩ := List.append_of_mem ha
    have hb' : b ∈ back := List.singleton_sublist.1 hb
    refine hall a (hl ▸ List.mem_append_left _ ha) ⟨before, a.2, mid ++ back, ?_, b, ?_, heq.symm⟩
    · rw [hl, List.append_assoc, List.cons_append]
    · exact List.mem_append_right _ hb'
  · rintro hpw e - ⟨before, c, after, hsplit, e', he', heq⟩
    rw [hsplit, List.pairwise_append, List.pairwise_cons] at hpw
    exact hpw.2.1.1 e' he' heq.symm

/-- The encoder finds the code of a route of the dictionary. -/
theorem routeCode_setup (t : Tables) {route : String} {c : ℤ} (hmem : (route, c) ∈ d.entries) :
    routeCode (setupRouteDictionary t d.json) (utf8Bytes route) = c := by
  have hkeys : ((d.entries.map fun e => (e.1, Json.int e.2)).map Prod.fst).Nodup := by
    rw [List.map_map]
    exact d.nodup_routes
  have hlook : (d.entries.map fun e => (e.1, Json.int e.2)).lookup route = some (.int c) := by
    apply lookup_eq_some_of_mem hkeys
    exact List.mem_map.2 ⟨_, hmem, rfl⟩
  simp only [routeCode, jsonObjectGetText, fromUTF8_utf8Bytes, setupRouteDictionary, RouteDict.json,
    jsonObjectGet_obj, hlook, jsonIntegerValue]
  have hpos := d.code_pos _ hmem
  have hlt := d.code_lt _ hmem
  refine Int.bmod_eq_of_le ?_ ?_ <;> norm_num at hlt ⊢ <;> linarith

end Resolve

/-- The bytes of a message decode, and their route code resolves to `route`. -/
def ResolvesTo (t : Tables) (bytes : Bytes) (route : String) : Prop :=
  ∃ raw, msgDecode [] bytes = .ok (raw, []) ∧ raw.compressRoute = true ∧
    resolveDictionary t raw.routeCode = some route

theorem encodeType_hasRoute (reqId : ℕ) : (encodeType reqId).hasRoute = true := by
  rw [encodeType]
  split <;> rfl

/-- What the encoder emits for a route of the dictionary decodes to its code. -/
theorem msgDecode_defaultMsgEncodeCb {dumps : Json → Option Bytes} {d : RouteDict} {t : Tables}
    {ms ms' : List Bool} {reqId : ℕ} {route : String} {c : ℤ} {msg : Option Json} {buf : MsgBuf}
    (hmem : (route, c) ∈ d.entries) (hid : reqId < 2 ^ 32)
    (henc : defaultMsgEncodeCb dumps (setupRouteDictionary t d.json) ms reqId (utf8Bytes route)
      msg = .ok (buf, ms')) :
    ∃ raw, msgDecode [] buf.base = .ok (raw, []) ∧ raw.compressRoute = true ∧
      raw.routeCode = c.toNat := by
  have hpos := d.code_pos _ hmem
  rw [defaultMsgEncodeCb] at henc
  rcases hbody : encodeBody dumps (setupRouteDictionary t d.json) ms (utf8Bytes route) msg with
    stop | ⟨body, ms₁⟩
  · rw [hbody] at henc
    simp [bind, Except.bind] at henc
  · rw [hbody] at henc
    simp only [bind, Except.bind, encodeRouted, routeCode_setup t hmem,
      if_pos (show 0 < c by linarith)] at henc
    rcases hcode : msgEncodeCode ms₁ reqId (encodeType reqId) c body with ⟨_ | buf', ms₂⟩
    · simp [hcode] at henc
    · simp only [hcode, Except.ok.injEq, Prod.mk.injEq] at henc
      obtain ⟨rfl, rfl⟩ := henc
      have hdec := msgDecode_msgEncodeCode hid (by linarith) (d.code_lt _ hmem) hcode
      exact ⟨_, hdec, rfl, if_pos (encodeType_hasRoute reqId)⟩

/-- **Which routes survive.** Install a dictionary, encode any message for one of its
routes, decode the bytes and resolve the code in the same tables: the route comes back
exactly when the table builder has not overwritten it. So every route of a dictionary
comes back exactly when the codes are distinct in their low bytes. -/
theorem resolvesTo_defaultMsgEncodeCb_iff (dumps : Json → Option Bytes) (d : RouteDict)
    (t : Tables) :
    (∀ e ∈ d.entries, ∀ ms ms' reqId msg buf, reqId < 2 ^ 32 →
      defaultMsgEncodeCb dumps (setupRouteDictionary t d.json) ms reqId (utf8Bytes e.1) msg =
        .ok (buf, ms') →
      (ResolvesTo (setupRouteDictionary t d.json) buf.base e.1 ↔ ¬ d.Overwritten e.1)) ∧
    ((∀ e ∈ d.entries, ¬ d.Overwritten e.1) ↔
      (d.entries.map Prod.snd).Pairwise fun a b => a % 0x100 ≠ b % 0x100) := by
  refine ⟨?_, d.forall_not_overwritten_iff⟩
  rintro ⟨route, c⟩ hmem ms ms' reqId msg buf hid henc
  obtain ⟨raw, hdec, hcompress, hcode⟩ := msgDecode_defaultMsgEncodeCb hmem hid henc
  rw [← resolveDictionary_iff t hmem, ← hcode]
  constructor
  · rintro ⟨raw', hdec', -, hres⟩
    rw [hdec] at hdec'
    obtain ⟨rfl, -⟩ := Prod.mk.inj (Except.ok.inj hdec')
    exact hres
  · intro hres
    exact ⟨raw, hdec, hcompress, hres⟩

/-- A client before its first handshake. -/
def noTables : Tables := ⟨none, none, none, none⟩

/-- `json_dumps` on the empty object, which is all the runs below print. -/
def dumpsEmpty : Json → Option Bytes
  | .obj [] => some [0x7b, 0x7d]
  | _ => none

/-- Two routes with the codes `1` and `2`. -/
def smallDict : RouteDict where
  entries := [("chat.send", 1), ("chat.leave", 2)]
  nodup_routes := by decide
  nodup_codes := by decide
  code_pos := by decide
  code_lt := by decide
  route_text := by decide

/-- Two routes whose codes differ by `256`. -/
def wideDict : RouteDict where
  entries := [("chat.send", 1), ("chat.leave", 257)]
  nodup_routes := by decide
  nodup_codes := by decide
  code_pos := by decide
  code_lt := by decide
  route_text := by decide

/-- In a small dictionary the request for `chat.send` comes back as `chat.send`. -/
theorem resolvesTo_chat_send :
    defaultMsgEncodeCb dumpsEmpty (setupRouteDictionary noTables smallDict.json) [] 7
        (utf8Bytes "chat.send") (some (.obj [])) = .ok (⟨6, [1, 7, 0, 1, 0x7b, 0x7d]⟩, []) ∧
      ResolvesTo (setupRouteDictionary noTables smallDict.json) [1, 7, 0, 1, 0x7b, 0x7d]
        "chat.send" := by
  have henc : defaultMsgEncodeCb dumpsEmpty (setupRouteDictionary noTables smallDict.json) [] 7
      (utf8Bytes "chat.send") (some (.obj [])) = .ok (⟨6, [1, 7, 0, 1, 0x7b, 0x7d]⟩, []) := by
    rfl
  have hiff := resolvesTo_defaultMsgEncodeCb_iff dumpsEmpty smallDict noTables
  have hdistinct : (smallDict.entries.map Prod.snd).Pairwise fun a b => a % 0x100 ≠ b % 0x100 := by
    decide
  have hmem : ("chat.send", 1) ∈ smallDict.entries := List.mem_cons_self ..
  refine ⟨henc, ?_⟩
  exact (hiff.1 _ hmem [] [] 7 _ _ (by norm_num) henc).2 (hiff.2.2 hdistinct _ hmem)

/-- With the codes `1` and `257` the bytes emitted for `chat.send` resolve to
`chat.leave`. -/
theorem not_resolvesTo_chat_send :
    defaultMsgEncodeCb dumpsEmpty (setupRouteDictionary noTables wideDict.json) [] 7
        (utf8Bytes "chat.send") (some (.obj [])) = .ok (⟨6, [1, 7, 0, 1, 0x7b, 0x7d]⟩, []) ∧
      ¬ ResolvesTo (setupRouteDictionary noTables wideDict.json) [1, 7, 0, 1, 0x7b, 0x7d]
        "chat.send" ∧
      ResolvesTo (setupRouteDictionary noTables wideDict.json) [1, 7, 0, 1, 0x7b, 0x7d]
        "chat.leave" := by
  have hdec : msgDecode [] [1, 7, 0, 1, 0x7b, 0x7d] =
      .ok (⟨7, .request, true, 1, none, [0x7b, 0x7d]⟩, []) := by
    rfl
  have hres : resolveDictionary (setupRouteDictionary noTables wideDict.json) 1 =
      some "chat.leave" := by
    rfl
  refine ⟨rfl, ?_, ⟨_, hdec, rfl, hres⟩⟩
  rintro ⟨raw, hdec', -, hres'⟩
  rw [hdec] at hdec'
  obtain ⟨rfl, -⟩ := Prod.mk.inj (Except.ok.inj hdec')
  rw [hres] at hres'
  exact absurd (Option.some.inj hres') (by decide)

end Libpomelo
