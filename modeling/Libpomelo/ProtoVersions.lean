import Libpomelo.ParserLife

/-!
# The version and the definitions it stands for

A client announces a protobuf version so that the server need not send the definitions
again. Version and definitions are kept in memory and in the files, and each of the places
is written by other branches: `pc_proto_copy` writes the memory, a response with `protos`
writes the files and the definitions in memory but not the version there, the reset forgets
the definitions and keeps the version.

The four fields are a component of their own (`ProtoCache`), which the acts of the client
move on (`ProtoAct`). What it would announce, and what its files hold, follows from the
history (`versionAfter`, `storeAfter`). As long as every event that could separate the
version from its definitions meets a condition on the history before it (`Event.Agrees`), a
response that relies on the announced version finds the definitions that came with it
(`reliance_answered`).
-/

namespace Libpomelo

/-! ## The cache -/

/-- The version in the files. -/
def ProtoFiles.fileVersion (files : ProtoFiles) : Option Json :=
  jsonObjectGet files.version "protoVersion"

/-- The files after a version and its definitions were dumped. -/
def dumped (version server client : Option Json) : ProtoFiles :=
  ⟨dumpFile (some (jsonObjectSet (.obj []) "protoVersion" version)), dumpFile server,
    dumpFile client⟩

@[simp] theorem fileVersion_dumped (version server client : Option Json) :
    (dumped version server client).fileVersion = version := by
  cases version with
  | none => rfl
  | some v => simp [dumped, ProtoFiles.fileVersion, jsonObjectSet, setMember, dumpFile, jsonObjectGet]

/-- What a handshake response says about the definitions. -/
inductive ProtoAnswer : Type where
  /-- `useProto` with `protos`: the version and the definitions -/
  | carries (version server client : Option Json)
  /-- `useProto` alone -/
  | relies
  /-- no `useProto` -/
  | drops
  /-- no `sys` -/
  | silent

/-- The answer of the response `res`. -/
def protoAnswer (res : Json) : ProtoAnswer :=
  match jsonObjectGet (some res) "sys" with
  | none => .silent
  | some sys =>
    match jsonObjectGet (some sys) "useProto", jsonObjectGet (some sys) "protos" with
    | some _, some protos =>
      .carries (jsonObjectGet (some protos) "version") (jsonObjectGet (some protos) "server")
        (jsonObjectGet (some protos) "client")
    | some _, none => .relies
    | none, _ => .drops

/-- The definitions and their version, in memory and in the files. -/
structure ProtoCache : Type where
  /-- `server_protos` -/
  server : Option Json
  /-- `client_protos` -/
  client : Option Json
  /-- `proto_ver` -/
  version : Option Json
  /-- the files -/
  files : ProtoFiles

namespace ProtoCache

/-- The version that the next handshake request announces. -/
def known (c : ProtoCache) : Option Json := c.version.or c.files.fileVersion

/-- The definitions of the server that a response finds that relies on them. -/
def serverFound (c : ProtoCache) : Option Json := c.server.or c.files.server

/-- And those of the client. -/
def clientFound (c : ProtoCache) : Option Json := c.client.or c.files.client

/-- `pc_proto_copy`. -/
def copy (c : ProtoCache) (version server client : Option Json) : ProtoCache :=
  ⟨server, client, version, c.files⟩

/-- `pc__client_reconnect_reset`. -/
def reset (c : ProtoCache) : ProtoCache := { c with server := none, client := none }

/-- The lookup of `pc__handshake_req`. -/
def load (c : ProtoCache) : ProtoCache := { c with version := c.known }

/-- `pc__handshake_resp`. -/
def answer (c : ProtoCache) : ProtoAnswer → ProtoCache
  | .carries version server client => ⟨server, client, c.version, dumped version server client⟩
  | .relies => { c with server := c.serverFound, client := c.clientFound }
  | .drops => ⟨none, none, none, c.files⟩
  | .silent => c

end ProtoCache

/-- The cache of a client. -/
def World.protos (w : World) : ProtoCache :=
  ⟨w.tables.serverProtos, w.tables.clientProtos, w.protoVer, w.files⟩

/-- **What a response does to the cache.** -/
theorem setupSys_protos (res : Json) (w : World) :
    (setupSys res w).protos = w.protos.answer (protoAnswer res) := by
  have hheartbeat : ∀ sys (v : World), (setupHeartbeat sys v).protos = v.protos := by
    intro sys v
    rw [setupHeartbeat]
    dsimp only
    split <;> rfl
  have hdict : ∀ sys (v : World), (setupDictionary sys v).protos = v.protos := by
    intro sys v
    rw [setupDictionary]
    split <;> rfl
  have hprotos : ∀ sys (v : World), jsonObjectGet (some res) "sys" = some sys →
      (setupProtos sys v).protos = v.protos.answer (protoAnswer res) := by
    intro sys v hsys
    rcases huse : jsonObjectGet (some sys) "useProto" with _ | use
    · simp only [setupProtos, protoAnswer, hsys, huse]
      rfl
    rcases hsent : jsonObjectGet (some sys) "protos" with _ | protos
    · simp only [setupProtos, protoAnswer, hsys, huse, hsent]
      rfl
    · simp only [setupProtos, protoAnswer, hsys, huse, hsent]
      rfl
  rw [setupSys]
  split
  · next sys hsys => rw [hprotos sys _ hsys, hdict, hheartbeat]
  · next hsys =>
    rw [protoAnswer, hsys]
    rfl

/-- The event is about the definitions. -/
def Event.proto : Event → Bool
  | .copied _ _ _ | .reset _ | .announced _ | .shook _ _ _ _ => true
  | _ => false

/-- **One act on the cache**, and what it adds to the history. -/
inductive ProtoAct (trace : List Event) (c : ProtoCache) : List Event → ProtoCache → Prop where
  /-- something else happens -/
  | other (newer : List Event) : (∀ e ∈ newer, e.proto = false) → ProtoAct trace c (newer ++ trace) c
  /-- `pc_proto_copy` -/
  | copy (version server client : Option Json) :
      ProtoAct trace c (.copied version server client :: trace) (c.copy version server client)
  /-- the connection is reset -/
  | reset (delay : Option ℤ) : ProtoAct trace c (.reset delay :: trace) c.reset
  /-- the version to announce is looked up -/
  | load : ProtoAct trace c trace c.load
  /-- it is announced -/
  | announce : c.version = c.known → ProtoAct trace c (.announced c.version :: trace) c
  /-- a handshake response is processed -/
  | shook (transport : Option ℕ) (res : Json) : ProtoAct trace c
      (.shook transport res (c.answer (protoAnswer res)).server (c.answer (protoAnswer res)).client ::
        trace) (c.answer (protoAnswer res))

theorem Event.proto_of_plain {e : Event} (h : e.plain = true) : e.proto = false := by
  cases e with
  | copied | reset | announced | shook => exact absurd h (by simp [Event.plain])
  | _ => rfl

section Acts

variable {w w' : World}

theorem protos_of_holdings {h : Holdings} (hheld : w'.holdings = h) :
    w'.protos = ⟨h.tables.serverProtos, h.tables.clientProtos, h.protoVer, h.files⟩ := by
  rw [← hheld]
  rfl

/-- **The acts of the client** are acts on its cache. -/
theorem Act.proto (h : Act w w') : ProtoAct w.trace w.protos w'.trace w'.protos := by
  have hother : ∀ e : Event, e.proto = false → w'.trace = e :: w.trace → w'.protos = w.protos →
      ProtoAct w.trace w.protos w'.trace w'.protos := by
    intro e he htrace hprotos
    rw [htrace, hprotos]
    exact .other [e] fun e' he' => List.mem_singleton.mp he' ▸ he
  cases h with
  | quiet htrace hheld =>
    rw [htrace, protos_of_holdings hheld]
    exact .other [] (by simp)
  | event e htrace hheld he =>
    exact hother e (Event.proto_of_plain he) htrace (protos_of_holdings hheld)
  | unlist htrace _ hheld =>
    rw [htrace, protos_of_holdings hheld]
    exact .other [] (by simp)
  | accept req _ htrace hheld => exact hother _ rfl htrace (protos_of_holdings hheld)
  | copy version client server heq =>
    rw [heq]
    exact .copy version server client
  | reset delay htrace hheld =>
    rw [htrace, protos_of_holdings hheld]
    exact .reset delay
  | load htrace hheld =>
    rw [htrace, protos_of_holdings hheld]
    exact .load
  | announce hknown htrace hheld =>
    have hversion : w.protos.version = w.protos.known := by
      rw [ProtoCache.known]
      rcases hver : w.protos.version with _ | version
      · exact (hknown hver).symm
      · rfl
    rw [htrace, protos_of_holdings hheld]
    exact .announce hversion
  | shook transport res htrace hheld =>
    have hprotos : w'.protos = w.protos.answer (protoAnswer res) :=
      (protos_of_holdings hheld).trans (setupSys_protos res w)
    have hserver : w'.tables.serverProtos = w'.protos.server := rfl
    have hclient : w'.tables.clientProtos = w'.protos.client := rfl
    rw [htrace, hserver, hclient, hprotos]
    exact .shook transport res

end Acts

/-! ## The history -/

/-- The version was announced and is not answered yet. -/
def awaited : List Event → Option Json
  | [] => none
  | .announced version :: _ => version
  | .shook _ _ _ _ :: _ | .reset _ :: _ => none
  | _ :: earlier => awaited earlier

/-- What the files hold after this history, when they held `files` before it. -/
def storeAfter (files : ProtoFiles) : List Event → ProtoFiles
  | [] => files
  | .shook _ res _ _ :: earlier =>
    match protoAnswer res with
    | .carries version server client => dumped version server client
    | _ => storeAfter files earlier
  | _ :: earlier => storeAfter files earlier

/-- The version that is announced after this history. -/
def versionAfter (files : ProtoFiles) : List Event → Option Json
  | [] => files.fileVersion
  | .copied version _ _ :: earlier => version.or (storeAfter files earlier).fileVersion
  | .shook _ res _ _ :: earlier =>
    match protoAnswer res with
    | .carries version _ _ => (versionAfter files earlier).or version
    | .drops => (storeAfter files earlier).fileVersion
    | _ => versionAfter files earlier
  | _ :: earlier => versionAfter files earlier

/-- The definitions were obtained together with the version: they were in the files at the
start, `pc_proto_copy` passed them, or a response carried them. -/
def Obtained (files : ProtoFiles) (trace : List Event) (version : Json)
    (server client : Option Json) : Prop :=
  (files.fileVersion = some version ∧ files.server = server ∧ files.client = client) ∨
  .copied (some version) server client ∈ trace ∨
  ∃ t res s c, .shook t res s c ∈ trace ∧ protoAnswer res = .carries (some version) server client

/-- Every event of the history meets the condition, given the history before it. -/
def Along (P : List Event → Event → Prop) : List Event → Prop
  | [] => True
  | e :: earlier => P earlier e ∧ Along P earlier

/-- A response that relies on the announced version leaves the definitions in force that were
obtained together with it. -/
def Event.Matched (files : ProtoFiles) (earlier : List Event) : Event → Prop
  | .shook _ res server client => protoAnswer res = .relies → ∀ version,
      awaited earlier = some version → Obtained files earlier version server client
  | _ => True

/-- The event does not part the version to announce from its definitions.

* `pc_proto_copy` passes a version with both definitions, as far as the files have any, or
  neither a version nor definitions; between an announcement and its response it does not
  change the version.
* The connection is reset only when the version to announce is that of the files.
* A response carries the version that was to be announced, unless there was none; and the
  definitions that it carries can be written to a file. -/
def Event.Agrees (files : ProtoFiles) (earlier : List Event) : Event → Prop
  | .copied version server client =>
    let store := storeAfter files earlier
    (awaited earlier = none ∨ version.or store.fileVersion = awaited earlier) ∧
    (if version.isSome then server.or store.server = server ∧ client.or store.client = client
    else store.fileVersion = none ∨
      server.or store.server = store.server ∧ client.or store.client = store.client)
  | .reset _ => versionAfter files earlier = none ∨
      versionAfter files earlier = (storeAfter files earlier).fileVersion
  | .shook _ res _ _ =>
    match protoAnswer res with
    | .carries version server client =>
      (versionAfter files earlier = none ∨ versionAfter files earlier = version) ∧
      (version = none ∨ dumpFile server = server ∧ dumpFile client = client)
    | _ => True
  | _ => True

/-- Version, definitions and files belong together. -/
structure ProtoCache.Coherent (files : ProtoFiles) (trace : List Event) (c : ProtoCache) : Prop where
  /-- the files are those of the history -/
  store : c.files = storeAfter files trace
  /-- so is the version to announce -/
  known : c.known = versionAfter files trace
  /-- which is the one that is awaited -/
  awaited : ∀ version, awaited trace = some version → c.known = some version
  /-- the definitions came with it -/
  found : ∀ version, c.known = some version →
    Obtained files trace version c.serverFound c.clientFound
  /-- so did those in the files with theirs -/
  filed : ∀ version, c.files.fileVersion = some version →
    Obtained files trace version c.files.server c.files.client

section History

variable {files : ProtoFiles} {trace newer : List Event} {c : ProtoCache}

theorem Obtained.mono {version : Json} {server client : Option Json}
    (h : Obtained files trace version server client) (newer : List Event) :
    Obtained files (newer ++ trace) version server client := by
  rcases h with hfiles | hcopied | ⟨t, res, s, c, hmem, hcarries⟩
  · exact .inl hfiles
  · exact .inr (.inl (List.mem_append_right _ hcopied))
  · exact .inr (.inr ⟨t, res, s, c, List.mem_append_right _ hmem, hcarries⟩)

/-- Other events change nothing. -/
theorem history_of_other (h : ∀ e ∈ newer, e.proto = false) :
    awaited (newer ++ trace) = awaited trace ∧
      storeAfter files (newer ++ trace) = storeAfter files trace ∧
      versionAfter files (newer ++ trace) = versionAfter files trace := by
  induction newer with
  | nil => exact ⟨rfl, rfl, rfl⟩
  | cons e newer ih =>
    obtain ⟨hawaited, hstore, hversion⟩ := ih fun e' he' => h e' (List.mem_cons_of_mem _ he')
    have he : e.proto = false := h e List.mem_cons_self
    rw [List.cons_append, ← hawaited, ← hstore, ← hversion]
    cases e with
    | copied | reset | announced | shook => exact absurd he (by simp [Event.proto])
    | _ => exact ⟨rfl, rfl, rfl⟩

namespace ProtoCache.Coherent

theorem other (h : c.Coherent files trace) (hnewer : ∀ e ∈ newer, e.proto = false) :
    c.Coherent files (newer ++ trace) := by
  obtain ⟨hawaited, hstore, hversion⟩ :
      Libpomelo.awaited (newer ++ trace) = Libpomelo.awaited trace ∧
        storeAfter files (newer ++ trace) = storeAfter files trace ∧
        versionAfter files (newer ++ trace) = versionAfter files trace := history_of_other hnewer
  refine ⟨by rw [hstore, h.store], by rw [hversion, h.known], ?_, ?_, ?_⟩
  · rw [hawaited]
    exact h.awaited
  · exact fun version hknown => (h.found version hknown).mono newer
  · exact fun version hfiled => (h.filed version hfiled).mono newer

theorem copy (h : c.Coherent files trace) {version server client : Option Json}
    (hok : Event.Agrees files trace (.copied version server client)) :
    (c.copy version server client).Coherent files (.copied version server client :: trace) := by
  obtain ⟨hawaited, hfound⟩ := hok
  rw [← h.store] at hawaited hfound
  have hfiled : ∀ v, c.files.fileVersion = some v → Obtained files
      (.copied version server client :: trace) v c.files.server c.files.client :=
    fun v hv => (h.filed v hv).mono [_]
  refine ⟨h.store, ?_, ?_, ?_, hfiled⟩
  · rw [versionAfter, ← h.store]
    rfl
  · intro v hv
    rcases hawaited with hnone | hsame
    · exact absurd (hnone.symm.trans hv) (by simp)
    · exact hsame.trans hv
  · intro v hv
    cases version with
    | some u =>
      obtain ⟨hserver, hclient⟩ := hfound
      obtain rfl : u = v := Option.some.inj hv
      refine .inr (.inl ?_)
      rw [serverFound, clientFound, ProtoCache.copy]
      dsimp only
      rw [hserver, hclient]
      exact List.mem_cons_self
    | none =>
      have hfile : c.files.fileVersion = some v := hv
      rcases hfound with hnone | ⟨hserver, hclient⟩
      · exact absurd (hnone.symm.trans hfile) (by simp)
      · rw [serverFound, clientFound, ProtoCache.copy]
        dsimp only
        rw [hserver, hclient]
        exact hfiled v hfile

theorem reset (h : c.Coherent files trace) {delay : Option ℤ}
    (hok : Event.Agrees files trace (.reset delay)) :
    c.reset.Coherent files (.reset delay :: trace) := by
  refine ⟨h.store, h.known, fun v hv => absurd hv (by simp [Libpomelo.awaited]), ?_,
    fun v hv => (h.filed v hv).mono [_]⟩
  intro v hv
  have hknown : c.known = some v := hv
  rcases hok with hnone | hsame
  · rw [← h.known, hknown] at hnone
    exact absurd hnone (by simp)
  · rw [← h.known, hknown, ← h.store] at hsame
    exact (h.filed v hsame.symm).mono [_]

theorem load (h : c.Coherent files trace) : c.load.Coherent files trace := by
  have hknown : c.load.known = c.known := by
    change c.known.or c.files.fileVersion = c.known
    rw [ProtoCache.known, Option.or_assoc, Option.or_self]
  refine ⟨h.store, hknown.trans h.known, ?_, ?_, h.filed⟩
  · rw [hknown]
    exact h.awaited
  · rw [hknown]
    exact h.found

theorem announce (h : c.Coherent files trace) (hversion : c.version = c.known) :
    c.Coherent files (.announced c.version :: trace) := by
  refine ⟨h.store, h.known, fun v hv => ?_, fun v hv => (h.found v hv).mono [_],
    fun v hv => (h.filed v hv).mono [_]⟩
  rw [← hversion]
  exact hv

/-- A response with definitions. -/
theorem carries (h : c.Coherent files trace) {t : Option ℕ} {res : Json}
    {s s' version server client : Option Json}
    (hanswer : protoAnswer res = .carries version server client)
    (hok : Event.Agrees files trace (.shook t res s s')) :
    (c.answer (.carries version server client)).Coherent files (.shook t res s s' :: trace) := by
  simp only [Event.Agrees, hanswer, ← h.known] at hok
  obtain ⟨hversion, hdumps⟩ := hok
  -- the version to announce is that of the response, whether or not one is in memory
  have hmemory : c.version.or version = version := by
    rcases hver : c.version with _ | v
    · rfl
    · have hv : c.known = some v := by
        rw [ProtoCache.known, hver]
        rfl
      rw [hv] at hversion
      rcases hversion with hnone | hsame
      · exact absurd hnone (by simp)
      · rw [← hsame]
        rfl
  have hafter : c.known.or version = version := by
    rcases hversion with hnone | hsame
    · rw [hnone]
      rfl
    · rw [hsame, Option.or_self]
  have hknown : (c.answer (.carries version server client)).known = version := by
    change c.version.or (dumped version server client).fileVersion = version
    rw [fileVersion_dumped, hmemory]
  have hobtained : ∀ v, version = some v →
      Obtained files (.shook t res s s' :: trace) v server client := by
    rintro v rfl
    exact .inr (.inr ⟨t, res, s, s', List.mem_cons_self, hanswer⟩)
  refine ⟨?_, ?_, fun v hv => absurd hv (by simp [Libpomelo.awaited]), fun v hv => ?_, fun v hv => ?_⟩
  · simp only [storeAfter, hanswer]
    rfl
  · simp only [versionAfter, hanswer, ← h.known]
    rw [hknown, hafter]
  · have hor : ∀ x : Option Json, x.or (dumpFile x) = x := by
      rintro (_ | x)
      · rfl
      · rfl
    change Obtained files _ v (server.or (dumpFile server)) (client.or (dumpFile client))
    rw [hor, hor]
    exact hobtained v (hknown.symm.trans hv)
  · have hv' : version = some v := (fileVersion_dumped version server client).symm.trans hv
    rcases hdumps with hnone | ⟨hserver, hclient⟩
    · exact absurd (hnone.symm.trans hv') (by simp)
    · change Obtained files _ v (dumpFile server) (dumpFile client)
      rw [hserver, hclient]
      exact hobtained v hv'

theorem shook (h : c.Coherent files trace) {t : Option ℕ} {res : Json} {s s' : Option Json}
    (hok : Event.Agrees files trace (.shook t res s s')) :
    (c.answer (protoAnswer res)).Coherent files (.shook t res s s' :: trace) := by
  have hfiled : ∀ v, c.files.fileVersion = some v →
      Obtained files (.shook t res s s' :: trace) v c.files.server c.files.client :=
    fun v hv => (h.filed v hv).mono [_]
  have hfound : ∀ v, c.known = some v →
      Obtained files (.shook t res s s' :: trace) v c.serverFound c.clientFound :=
    fun v hv => (h.found v hv).mono [_]
  have hanswered : ∀ v, Libpomelo.awaited (.shook t res s s' :: trace) = some v → False :=
    fun v hv => absurd hv (by simp [Libpomelo.awaited])
  cases hanswer : protoAnswer res with
  | carries version server client => exact h.carries hanswer hok
  | relies =>
    refine ⟨?_, ?_, fun v hv => (hanswered v hv).elim, ?_, hfiled⟩
    · simp only [storeAfter, hanswer]
      exact h.store
    · simp only [versionAfter, hanswer]
      exact h.known
    · intro v hv
      change Obtained files _ v (c.serverFound.or c.files.server) (c.clientFound.or c.files.client)
      rw [ProtoCache.serverFound, ProtoCache.clientFound, Option.or_assoc, Option.or_assoc,
        Option.or_self, Option.or_self]
      exact hfound v hv
  | drops =>
    refine ⟨?_, ?_, fun v hv => (hanswered v hv).elim, hfiled, hfiled⟩
    · simp only [storeAfter, hanswer]
      exact h.store
    · simp only [versionAfter, hanswer, ← h.store]
      rfl
  | silent =>
    refine ⟨?_, ?_, fun v hv => (hanswered v hv).elim, hfound, hfiled⟩
    · simp only [storeAfter, hanswer]
      exact h.store
    · simp only [versionAfter, hanswer]
      exact h.known

end ProtoCache.Coherent

variable {trace' : List Event} {c' : ProtoCache}

theorem ProtoAct.suffix (h : ProtoAct trace c trace' c') : trace <:+ trace' := by
  cases h with
  | other newer => exact List.suffix_append newer trace
  | load => exact List.suffix_refl trace
  | _ => exact List.suffix_cons _ trace

theorem Along.of_suffix {P : List Event → Event → Prop} (hsuffix : trace <:+ trace')
    (h : Along P trace') : Along P trace := by
  obtain ⟨newer, rfl⟩ := hsuffix
  induction newer with
  | nil => exact h
  | cons e newer ih => exact ih h.2

/-- **One act** keeps version and definitions together. -/
theorem ProtoAct.coherent (h : ProtoAct trace c trace' c') (hc : c.Coherent files trace)
    (hok : Along (Event.Agrees files) trace') : c'.Coherent files trace' := by
  cases h with
  | other newer hnewer => exact hc.other hnewer
  | copy => exact hc.copy hok.1
  | reset => exact hc.reset hok.1
  | load => exact hc.load
  | announce hversion => exact hc.announce hversion
  | shook => exact hc.shook hok.1

/-- **One act** leaves the definitions in force that were obtained with the version. -/
theorem ProtoAct.matched (h : ProtoAct trace c trace' c') (hc : c.Coherent files trace)
    (hmatched : Along (Event.Matched files) trace) : Along (Event.Matched files) trace' := by
  cases h with
  | other newer hnewer =>
    induction newer with
    | nil => exact hmatched
    | cons e newer ih =>
      refine ⟨?_, ih fun e' he' => hnewer e' (List.mem_cons_of_mem _ he')⟩
      have he : e.proto = false := hnewer e List.mem_cons_self
      cases e with
      | shook => exact absurd he (by simp [Event.proto])
      | _ => trivial
  | load => exact hmatched
  | copy | reset | announce => exact ⟨trivial, hmatched⟩
  | shook transport res =>
    refine ⟨fun hrelies version hversion => ?_, hmatched⟩
    rw [hrelies]
    exact hc.found version (hc.awaited version hversion)

end History

/-! ## Runs -/

section Runs

variable {cfg : Config} {files : ProtoFiles} {w w' : World}

/-- If the events of the history agree, its responses are matched, and the cache is coherent. -/
def World.Tracks (files : ProtoFiles) (w : World) : Prop :=
  Along (Event.Agrees files) w.trace →
    w.protos.Coherent files w.trace ∧ Along (Event.Matched files) w.trace

theorem World.Tracks.proto (h : w.Tracks files)
    (hact : ProtoAct w.trace w.protos w'.trace w'.protos) : w'.Tracks files := by
  intro hok
  obtain ⟨hcoherent, hmatched⟩ := h (.of_suffix hact.suffix hok)
  exact ⟨hact.coherent hcoherent hok, hact.matched hcoherent hmatched⟩

/-- An event about something else. -/
theorem World.Tracks.note (h : w.Tracks files) {e : Event} (he : e.proto = false)
    (htrace : w'.trace = e :: w.trace) (hprotos : w'.protos = w.protos) : w'.Tracks files := by
  apply h.proto
  rw [htrace, hprotos]
  exact .other [e] fun e' he' => List.mem_singleton.mp he' ▸ he

/-- **A turn of the threads**, unless it frees the client. -/
theorem World.Tracks.tends {supply : List Bool} (h : w.Tracks files)
    (htends : Tends cfg supply w w') :
    (w'.user ≠ .freed → w'.Tracks files) ∧
      (Along (Event.Agrees files) w'.trace → Along (Event.Matched files) w'.trace) := by
  have hact : ∀ v v' : World, v.Tracks files → Act v v' → v'.Tracks files :=
    fun v v' hv hact => hv.proto hact.proto
  have hsuffices : w'.Tracks files → (w'.user ≠ .freed → w'.Tracks files) ∧
      (Along (Event.Agrees files) w'.trace → Along (Event.Matched files) w'.trace) :=
    fun hw' => ⟨fun _ => hw', fun hok => (hw' hok).2⟩
  cases htends with
  | acts hacts => exact hsuffices (hacts.preserves hact h)
  | reads t ms data =>
    have hread : (clientOnTcpRead cfg ms data (w.receives supply t)).Tracks files :=
      clientOnTcpRead_preserves hact (fun _ _ hv => hv) (fun _ _ _ hv => hv.note rfl rfl rfl) ms data
        (h.note rfl rfl rfl)
    exact hsuffices hread
  | fires i req _ =>
    refine hsuffices (asyncWriteCb_preserves hact req ?_ ?_ ?_)
    · exact fun _ _ _ hv => hv.note rfl rfl rfl
    · exact fun _ _ hv => hv
    · exact h
  | frees =>
    obtain ⟨v, hacts, hfree⟩ := clientFree_cases cfg { w with supply := supply }
    have hv : v.Tracks files := hacts.preserves hact h
    rcases hfree with ⟨-, heq⟩ | heq
    · rw [heq]
      exact ⟨fun _ => hv, fun hok => (hv hok).2⟩
    · rw [heq]
      exact ⟨fun hfreed => absurd rfl hfreed, fun hok => (hv hok).2⟩

/-- **A response that relies on the announced version** leaves the definitions in force that
were obtained together with it: at the start from the files, from `pc_proto_copy`, or from an
earlier response. This holds in every run whose events do not part the version from its
definitions. -/
theorem reliance_answered {reqId : ℕ}
    (hrun : (clientLts cfg).Run (fun _ _ _ => True) (.init reqId files) w)
    (hok : Along (Event.Agrees files) w.trace) : Along (Event.Matched files) w.trace := by
  have hkept : (w.user ≠ .freed → w.Tracks files) ∧
      (Along (Event.Agrees files) w.trace → Along (Event.Matched files) w.trace) := by
    clear hok
    induction hrun with
    | refl =>
      have hinit : (World.init reqId files).Tracks files := by
        refine fun _ => ⟨⟨rfl, rfl, fun v hv => absurd hv (by simp [World.init, awaited]),
          fun v hv => .inl ⟨hv, rfl, rfl⟩, fun v hv => .inl ⟨hv, rfl, rfl⟩⟩, trivial⟩
      exact ⟨fun _ => hinit, fun hok => (hinit hok).2⟩
    | step _ hstep _ ih => exact (ih.1 (step_not_freed hstep)).tends (step_tends hstep)
  exact hkept.2 hok

end Runs

/-! ## A server that relies on the client -/

/-- `{"code":200,"sys":{"useProto":true}}`. -/
def relyingResponse : Bytes :=
  [123, 34, 99, 111, 100, 101, 34, 58, 50, 48, 48, 44, 34, 115, 121, 115, 34, 58, 123, 34, 117, 115,
    101, 80, 114, 111, 116, 111, 34, 58, 116, 114, 117, 101, 125, 125]

/-- The same, loaded. -/
def relyingJson : Json := .obj [("code", .int 200), ("sys", .obj [("useProto", .bool true)])]

/-- A client that reconnects. -/
def relyingConfig : Config :=
  { plainConfig true with
    dumps := fun body => match body with
      | .obj [("sys", .obj [_, _, ("protoVersion", .str "1")])] => some (utf8Bytes
          "\x7b\"sys\":\x7b\"type\":\"c\",\"version\":\"0.3.4\",\"protoVersion\":\"1\"\x7d\x7d")
      | body => plainDumps body
    loadb := fun data => if data = relyingResponse then some relyingJson else plainLoadb data }

/-- The definitions are copied, announced and relied on. -/
def copiedRun : List (List Bool × Label) :=
  [([], .call (.protoCopy (some (.str "1")) (some (.obj [])) (some (.obj [])))),
    ([], .connect .connect2), ([], .tcpConnect 0 true), ([], .writeDone 0 true),
    ([], .tcpRead 0 [] (.bytes ([1, 0, 0, 36] ++ relyingResponse)))]

theorem reliance_answered_copiedRun :
    ∃ w wrote agreed earlier, runSteps relyingConfig copiedRun plainInit = some w ∧
      Along (Event.Agrees ⟨none, none, none⟩) w.trace ∧
      w.trace = wrote :: agreed :: .shook (some 0) relyingJson (some (.obj [])) (some (.obj [])) ::
        earlier ∧
      protoAnswer relyingJson = .relies ∧ awaited earlier = some (.str "1") ∧
      Along (Event.Matched ⟨none, none, none⟩) w.trace := by
  have hcopied : ∃ w wrote agreed earlier, runSteps relyingConfig copiedRun plainInit = some w ∧
      Along (Event.Agrees ⟨none, none, none⟩) w.trace ∧
      w.trace = wrote :: agreed :: .shook (some 0) relyingJson (some (.obj [])) (some (.obj [])) ::
        earlier ∧
      awaited earlier = some (.str "1") := by
    refine ⟨_, _, _, _, rfl, ?_, rfl, rfl⟩
    -- only `pc_proto_copy`, the oldest event, has something to meet
    exact ⟨trivial, trivial, trivial, trivial, trivial, trivial, trivial, trivial, trivial,
      ⟨.inl rfl, rfl, rfl⟩, trivial⟩
  obtain ⟨w, wrote, agreed, earlier, hsteps, hok, htrace, hawaited⟩ := hcopied
  have hrun := run_of_runSteps copiedRun .refl (runMeets_true copiedRun plainInit) hsteps
  exact ⟨w, wrote, agreed, earlier, hsteps, hok, htrace, rfl, hawaited, reliance_answered hrun hok⟩

/-- The connection breaks, and the response on the next one relies on the definitions again. -/
def brokenRun : List (List Bool × Label) :=
  copiedRun ++ [([], .writeDone 0 true), ([], .tcpRead 0 [] .error), ([], .reconnectTimer),
    ([], .tcpConnect 0 true), ([], .writeDone 0 true),
    ([], .tcpRead 1 [] (.bytes ([1, 0, 0, 36] ++ relyingResponse)))]

/-- The event brings a version without definitions. -/
def Event.bare : Event → Bool
  | .copied _ none none => true
  | .shook _ res _ _ =>
    match protoAnswer res with
    | .carries _ none none => true
    | _ => false
  | _ => false

theorem not_obtained_none {files : ProtoFiles} {trace : List Event} {version : Json}
    (hfile : files.fileVersion ≠ some version) (h : ∀ e ∈ trace, e.bare = false) :
    ¬ Obtained files trace version none none := by
  rintro (⟨hversion, -⟩ | hcopied | ⟨t, res, s, c, hmem, hcarries⟩)
  · exact hfile hversion
  · exact absurd (h _ hcopied) (by simp [Event.bare])
  · exact absurd (h _ hmem) (by simp [Event.bare, hcarries])

/-- **After a reset** the client announces the version of `pc_proto_copy` again, and has no
definitions for it. -/
theorem not_matched_brokenRun :
    ∃ w wrote agreed earlier, (clientLts relyingConfig).Run (fun _ _ _ => True) plainInit w ∧
      runSteps relyingConfig brokenRun plainInit = some w ∧
      w.trace = wrote :: agreed :: .shook (some 1) relyingJson none none :: earlier ∧
      protoAnswer relyingJson = .relies ∧ awaited earlier = some (.str "1") ∧
      ¬ Along (Event.Matched ⟨none, none, none⟩) w.trace := by
  have hbroken : ∃ w wrote agreed earlier, runSteps relyingConfig brokenRun plainInit = some w ∧
      w.trace = wrote :: agreed :: .shook (some 1) relyingJson none none :: earlier ∧
      awaited earlier = some (.str "1") ∧ ∀ e ∈ earlier, e.bare = false :=
    ⟨_, _, _, _, rfl, rfl, rfl, by decide +kernel⟩
  obtain ⟨w, wrote, agreed, earlier, hsteps, htrace, hawaited, hbare⟩ := hbroken
  have hrun := run_of_runSteps brokenRun .refl (runMeets_true brokenRun plainInit) hsteps
  refine ⟨w, wrote, agreed, earlier, hrun, hsteps, htrace, rfl, hawaited, fun hmatched => ?_⟩
  rw [htrace] at hmatched
  have hobtained := hmatched.2.2.1 rfl _ hawaited
  exact not_obtained_none (by simp [ProtoFiles.fileVersion, jsonObjectGet]) hbare hobtained

end Libpomelo
