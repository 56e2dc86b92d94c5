import Libpomelo.Acts
import Libpomelo.FeedTurn
import Libpomelo.Lifecycle

/-!
# The parser over the life of a client

Only the feed moves the parser on. Every other function leaves it as it is or resets it,
and only `pc__pkg_cb` records that a package is handled (`World.Spares`). So between two
reads the parser is fit for the next one (`PkgParser.Sound`): its head has four bytes, it
is not closed, and it waits for at least one byte.
-/

namespace Libpomelo

/-- The event is a call of `pc__pkg_cb`. -/
def Event.dispatches : Event → Bool
  | .pkg _ _ => true
  | _ => false

/-- The event is neither a call of `pc__pkg_cb` nor a write of a request. -/
def Event.spared : Event → Bool
  | .pkg _ _ | .wrote ⟨.request _, _, _⟩ => false
  | _ => true

/-- The parser is left or reset, no package is handled, and no request is written or filed. -/
structure World.Spares (w w' : World) : Prop where
  /-- the parser -/
  parser : w'.pkgParser = w.pkgParser ∨ w'.pkgParser = pkgParserReset w.pkgParser
  /-- the request map -/
  requests : w'.requests.Sublist w.requests
  /-- the asyncs -/
  asyncs : ∀ req ∈ w'.asyncs, req ∈ w.asyncs ∨ .accepted req ∈ w'.trace ∧ req.id < 2 ^ 32
  /-- the history -/
  trace : ∃ newer, w'.trace = newer ++ w.trace ∧ ∀ e ∈ newer, e.spared = true

/-- A spared event is not one of a dispatch. -/
theorem Event.dispatches_of_spared {e : Event} (h : e.spared = true) : e.dispatches = false := by
  cases e with
  | pkg => exact absurd h (by simp [Event.spared])
  | _ => rfl

theorem Event.spared_of_plain {e : Event} (h : e.plain = true) : e.spared = true := by
  cases e with
  | pkg => exact h
  | wrote write =>
    obtain ⟨cb, t, data⟩ := write
    cases cb with
    | request => exact h
    | _ => rfl
  | _ => rfl

theorem pkgParserReset_reset (p : PkgParser) :
    pkgParserReset (pkgParserReset p) = pkgParserReset p := by
  by_cases hclosed : p.state = .closed
  · have hsame : pkgParserReset p = p := if_pos hclosed
    rw [hsame, hsame]
  · have hreset : pkgParserReset p = { p with
        headOffset := 0, pkgBuf := .null, pkgOffset := 0, pkgSize := 0, state := .head } :=
      if_neg hclosed
    rw [hreset]
    rfl

section Spares

variable {cfg : Config} {w w₁ w' : World}

/-- What two turns spare is spared by both. -/
theorem World.Spares.trans (h : w.Spares w₁) (h' : w₁.Spares w') : w.Spares w' := by
  obtain ⟨hparser, hrequests, hasyncs, newer, htrace, hall⟩ := h
  obtain ⟨hparser', hrequests', hasyncs', newer', htrace', hall'⟩ := h'
  refine ⟨?_, hrequests'.trans hrequests, fun req hreq => ?_, newer' ++ newer,
    by rw [htrace', htrace, List.append_assoc], fun e he => ?_⟩
  · rcases hparser' with hsame' | hreset'
    · rwa [hsame']
    · rcases hparser with hsame | hreset
      · rw [hreset', hsame]
        exact .inr rfl
      · rw [hreset', hreset, pkgParserReset_reset]
        exact .inr rfl
  · rcases hasyncs' req hreq with hold | hnew
    · rcases hasyncs req hold with hold | ⟨haccepted, hid⟩
      · exact .inl hold
      · refine .inr ⟨?_, hid⟩
        rw [htrace']
        exact List.mem_append_right _ haccepted
    · exact .inr hnew
  · rcases List.mem_append.mp he with he | he
    · exact hall' e he
    · exact hall e he

/-- No act of a handler touches the parser but a reset. -/
theorem Act.spares (h : Act w w') : w.Spares w' := by
  have hkeeps : ∀ newer : List Event, w'.trace = newer ++ w.trace →
      (∀ e ∈ newer, e.spared = true) → w'.pkgParser = w.pkgParser →
      w'.requests.Sublist w.requests → w'.asyncs = w.asyncs → w.Spares w' :=
    fun newer htrace hnewer hparser hrequests hasyncs =>
      ⟨.inl hparser, hrequests, fun req hreq => .inl (hasyncs ▸ hreq), newer, htrace, hnewer⟩
  have hone : ∀ e : Event, e.spared = true → ∀ e' ∈ [e], e'.spared = true :=
    fun e he e' he' => List.mem_singleton.mp he' ▸ he
  cases h with
  | quiet htrace hheld =>
    obtain ⟨hparser, hrequests, hasyncs, -⟩ := Holdings.mk.inj hheld
    exact hkeeps [] htrace (by simp) hparser (hrequests ▸ List.Sublist.refl _) hasyncs
  | event e htrace hheld he =>
    obtain ⟨hparser, hrequests, hasyncs, -⟩ := Holdings.mk.inj hheld
    exact hkeeps [e] htrace (hone e (Event.spared_of_plain he)) hparser (hrequests ▸ List.Sublist.refl _) hasyncs
  | unlist htrace hsub hheld =>
    obtain ⟨hparser, -, hasyncs, -⟩ := Holdings.mk.inj hheld
    exact hkeeps [] htrace (by simp) hparser hsub hasyncs
  | accept req hid htrace hheld =>
    obtain ⟨hparser, hrequests, hasyncs, -⟩ := Holdings.mk.inj hheld
    refine ⟨.inl hparser, hrequests ▸ List.Sublist.refl _, fun req' hreq => ?_, [.accepted req],
      htrace, hone _ rfl⟩
    rw [hasyncs] at hreq
    -- the queue of the async handles grows by this request alone
    rcases List.mem_append.mp hreq with hold | hnew
    · exact .inl hold
    · rw [List.mem_singleton.mp hnew, htrace]
      exact .inr ⟨List.mem_cons_self, hid⟩
  | copy version client server heq =>
    subst heq
    exact hkeeps [_] rfl (hone _ rfl) rfl (List.Sublist.refl _) rfl
  | reset delay htrace hheld =>
    obtain ⟨hparser, hrequests, hasyncs, -⟩ := Holdings.mk.inj hheld
    exact ⟨.inr hparser, hrequests ▸ List.Sublist.refl _, fun req hreq => .inl (hasyncs ▸ hreq),
      [.reset delay], htrace, hone _ rfl⟩
  | load htrace hheld =>
    obtain ⟨hparser, hrequests, hasyncs, -⟩ := Holdings.mk.inj hheld
    exact hkeeps [] htrace (by simp) hparser (hrequests ▸ List.Sublist.refl _) hasyncs
  | announce _ htrace hheld =>
    obtain ⟨hparser, hrequests, hasyncs, -⟩ := Holdings.mk.inj hheld
    exact hkeeps [_] htrace (hone _ rfl) hparser (hrequests ▸ List.Sublist.refl _) hasyncs
  | shook transport res htrace hheld =>
    obtain ⟨hparser, hrequests, hasyncs, -⟩ :=
      Holdings.mk.inj (hheld.trans (setupSys_holdings res w))
    exact hkeeps [_] htrace (hone _ rfl) hparser (hrequests ▸ List.Sublist.refl _) hasyncs

theorem Acts.spares (h : Acts w w') : w.Spares w' := by
  induction h with
  | refl =>
    exact ⟨.inl rfl, List.Sublist.refl _, fun _ hreq => .inl hreq, [], rfl,
      fun _ he => absurd he List.not_mem_nil⟩
  | tail _ hact ih => exact ih.trans hact.spares

end Spares

/-! ## The parser between two turns of the threads -/

section Sound

variable {cfg : Config} {w w' : World}

/-- And none makes it unsound. -/
theorem Acts.sound (h : Acts w w') (hsound : w.pkgParser.Sound) : w'.pkgParser.Sound := by
  obtain hsame | hreset := h.spares.parser
  · rwa [hsame]
  · rw [hreset]
    exact hsound.reset.sound

theorem clientHost_lawful : (clientHost cfg).Lawful where
  get _ _ := rfl
  set _ _ _ := rfl
  same _ := rfl

/-- What handling a package makes of the parser, the reset behind it brings to rest. -/
theorem deliver_atRest (cfg : Config) {p : PkgParser} (w : World) (hstate : p.state ≠ .closed)
    (hsize : p.headSize = pkgHeadBytes) (hbuf : p.headBuf.length = pkgHeadBytes) :
    ((clientHost cfg).deliver w p).pkgParser.AtRest := by
  have hcb : ({ w with pkgParser := p }.andThen (pkgCb cfg p.type p.pkgBuf.bytes)).pkgParser = p ∨
      ({ w with pkgParser := p }.andThen (pkgCb cfg p.type p.pkgBuf.bytes)).pkgParser =
        pkgParserReset p := by
    rw [World.andThen]
    split
    · exact .inl rfl
    · exact (acts_pkgCb p.type p.pkgBuf.bytes { w with pkgParser := p }).spares.parser
  have hreset : pkgParserReset
      ({ w with pkgParser := p }.andThen (pkgCb cfg p.type p.pkgBuf.bytes)).pkgParser =
        pkgParserReset p := by
    rcases hcb with hsame | hreset
    · rw [hsame]
    · rw [hreset, pkgParserReset_reset]
  have hparser : ((clientHost cfg).deliver w p).pkgParser = pkgParserReset p := hreset
  rw [hparser]
  exact pkgParserReset_atRest hstate hsize hbuf

/-- The feed of these bytes ends so, with any bound on the turns that is not below their
number. -/
def Feeds (cfg : Config) (ms : List Bool) (w : World) (data : Bytes) (rc : ℤ) (w' : World) : Prop :=
  ∀ fuel, data.length ≤ fuel → feedLoop (clientHost cfg) fuel ms w data = some (rc, w')

/-- A feed of nothing. -/
theorem Feeds.nil (ms : List Bool) (w : World) : Feeds cfg ms w [] 0 w :=
  fun fuel _ => feedLoop_nil fuel ms w

/-- **One turn of the client's feed**: bytes are stored and the feed ends, or a package is
handled and the feed goes on behind it. Fewer bytes are only stored. -/
inductive ClientTurn (cfg : Config) (ms : List Bool) (w : World) (data : Bytes) : Prop where
  /-- bytes were stored -/
  | keeps (rc : ℤ) (p : PkgParser) : p.Sound → ¬ p.AtRest →
      Feeds cfg ms w data rc { w with pkgParser := p } →
      (∀ front back, data = front ++ back → back ≠ [] →
        ∃ rc p, Feeds cfg ms w front rc { w with pkgParser := p }) →
      ClientTurn cfg ms w data
  /-- the bytes `used` completed a package -/
  | delivers (used rest : Bytes) (ms' : List Bool) (p : PkgParser) : data = used ++ rest →
      used ≠ [] → ((clientHost cfg).deliver w p).pkgParser.AtRest →
      (∀ tail rc w', Feeds cfg ms' ((clientHost cfg).deliver w p) tail rc w' →
        Feeds cfg ms w (used ++ tail) rc w') →
      (∀ front back, used = front ++ back → back ≠ [] →
        ∃ rc p, Feeds cfg ms w front rc { w with pkgParser := p }) →
      ClientTurn cfg ms w data

theorem feeds_of_turn {ms : List Bool} {data : Bytes} {rc : ℤ} (hne : data ≠ [])
    (h : ∀ fuel, feedLoop (clientHost cfg) (fuel + 1) ms w data = some (rc, w')) :
    Feeds cfg ms w data rc w' := by
  intro fuel hfuel
  have hpos : 0 < data.length := List.length_pos_of_ne_nil hne
  obtain ⟨n, rfl⟩ : ∃ n, fuel = n + 1 := ⟨fuel - 1, by omega⟩
  exact h n

/-- When one turn is enough for some bytes, fewer of them are only stored: a package among
them would leave the others to a second turn. -/
theorem feeds_prefix {ms : List Bool} {front back : Bytes} (hsound : w.pkgParser.Sound)
    (honce : (feedLoop (clientHost cfg) 1 ms w (front ++ back)).isSome) (hback : back ≠ []) :
    ∃ rc p, Feeds cfg ms w front rc { w with pkgParser := p } := by
  by_cases hne : front = []
  · subst hne
    exact ⟨0, w.pkgParser, .nil ms w⟩
  · have hturn : FeedTurn (clientHost cfg) ms w front :=
      feedTurn_of_sound clientHost_lawful hsound hne
    cases hturn with
    | keeps rc p _ _ hfeed => exact ⟨rc, p, feeds_of_turn hne hfeed⟩
    | delivers used rest ms' p hdata _ hstate hsize hbuf hfeed =>
      have hopen : ((clientHost cfg).parser ((clientHost cfg).deliver w p)).state ≠ .closed :=
        (deliver_atRest cfg w hstate hsize hbuf).sound.not_closed
      rw [hdata, List.append_assoc, hfeed, if_neg hopen] at honce
      have hne' : rest ++ back ≠ [] := List.append_ne_nil_of_right_ne_nil rest hback
      generalize rest ++ back = tail at honce hne'
      cases tail with
      | nil => exact absurd rfl hne'
      | cons b bs => exact absurd honce (by simp [feedLoop])

theorem clientTurn_of_sound {ms : List Bool} {data : Bytes} (hsound : w.pkgParser.Sound)
    (hne : data ≠ []) : ClientTurn cfg ms w data := by
  have hturn : FeedTurn (clientHost cfg) ms w data :=
    feedTurn_of_sound clientHost_lawful hsound hne
  cases hturn with
  | keeps rc p hp hrest hfeed =>
    refine .keeps rc p hp hrest (feeds_of_turn hne hfeed) fun front back hdata hback => ?_
    have honce := hfeed 0
    rw [hdata] at honce
    exact feeds_prefix hsound (by rw [honce]; rfl) hback
  | delivers used rest ms' p hdata hused hstate hsize hbuf hfeed =>
    have hatrest := deliver_atRest cfg w hstate hsize hbuf
    have hopen : ((clientHost cfg).parser ((clientHost cfg).deliver w p)).state ≠ .closed :=
      hatrest.sound.not_closed
    refine .delivers used rest ms' p hdata hused hatrest (fun tail rc w' hrest fuel hfuel => ?_)
      fun front back hsplit hback => ?_
    · have hpos : 0 < used.length := List.length_pos_of_ne_nil hused
      rw [List.length_append] at hfuel
      obtain ⟨n, rfl⟩ : ∃ n, fuel = n + 1 := ⟨fuel - 1, by omega⟩
      rw [hfeed, if_neg hopen]
      exact hrest n (by omega)
    · have honce := hfeed [] 0
      rw [if_neg hopen, List.append_nil, hsplit] at honce
      exact feeds_prefix hsound (by rw [honce]; rfl) hback

/-- **The feed returns**, and leaves a sound parser. -/
theorem feeds_total (cfg : Config) : ∀ (n : ℕ) (ms : List Bool) {w : World} {data : Bytes},
    data.length ≤ n → w.pkgParser.Sound → ∃ rc w', Feeds cfg ms w data rc w' ∧ w'.pkgParser.Sound := by
  intro n
  induction n with
  | zero =>
    intro ms w data hlen hsound
    obtain rfl := List.eq_nil_of_length_eq_zero (Nat.le_zero.mp hlen)
    exact ⟨0, w, .nil ms w, hsound⟩
  | succ n ih =>
    intro ms w data hlen hsound
    by_cases hne : data = []
    · subst hne
      exact ⟨0, w, .nil ms w, hsound⟩
    · have hturn : ClientTurn cfg ms w data := clientTurn_of_sound hsound hne
      cases hturn with
      | keeps rc p hp _ hfeed _ => exact ⟨rc, _, hfeed, hp⟩
      | delivers used rest ms' p hdata hused hatrest hfeed _ =>
        have hpos : 0 < used.length := List.length_pos_of_ne_nil hused
        rw [hdata, List.length_append] at hlen
        obtain ⟨rc, w', hrest, hsound'⟩ := ih ms' (by omega : rest.length ≤ n) hatrest.sound
        rw [hdata]
        exact ⟨rc, w', hfeed rest rc w' hrest, hsound'⟩

theorem Feeds.feed_eq {ms : List Bool} {data : Bytes} {rc : ℤ} (h : Feeds cfg ms w data rc w') :
    pkgParserFeed (clientHost cfg) ms w data = some (rc, w') := h _ (by omega)

/-- A feed has one outcome. -/
theorem Feeds.unique {ms : List Bool} {data : Bytes} {rc rc' : ℤ} {w₁ w₂ : World}
    (h : Feeds cfg ms w data rc w₁) (h' : Feeds cfg ms w data rc' w₂) : rc = rc' ∧ w₁ = w₂ := by
  have hsame := (h _ le_rfl).symm.trans (h' _ le_rfl)
  simpa using hsame

/-- The feed of a sound parser is what the loop computes with any bound. -/
theorem feeds_of_feed {ms : List Bool} {data : Bytes} {rc : ℤ} (hsound : w.pkgParser.Sound)
    (h : pkgParserFeed (clientHost cfg) ms w data = some (rc, w')) : Feeds cfg ms w data rc w' := by
  obtain ⟨rc₁, w₁, hfeeds, -⟩ := feeds_total cfg data.length ms le_rfl hsound
  have hsame := hfeeds.feed_eq.symm.trans h
  simp only [Option.some.injEq, Prod.mk.injEq] at hsame
  obtain ⟨rfl, rfl⟩ := hsame
  exact hfeeds

/-- A read leaves a sound parser. -/
theorem sound_clientOnTcpRead (ms : List Bool) (data : Bytes) (hsound : w.pkgParser.Sound) :
    (clientOnTcpRead cfg ms data w).pkgParser.Sound := by
  obtain ⟨rc, w₁, hfeeds, hsound₁⟩ := feeds_total cfg data.length ms le_rfl hsound
  have hstop : (w₁.andThen (failWith cfg .feed)).pkgParser.Sound :=
    ((Acts.refl w₁).andThen (acts_failWith .feed)).sound hsound₁
  rw [clientOnTcpRead, hfeeds.feed_eq]
  split
  · next heq =>
    obtain ⟨-, rfl⟩ := Prod.mk.inj (Option.some.inj heq)
    exact hsound₁
  · next heq =>
    obtain ⟨-, rfl⟩ := Prod.mk.inj (Option.some.inj heq)
    exact hstop
  · next heq => exact absurd heq (by simp)

/-- Filing a request changes no parser. -/
theorem sound_asyncWriteCb (req : TcpReq) (hsound : w.pkgParser.Sound) :
    (asyncWriteCb cfg req w).pkgParser.Sound :=
  asyncWriteCb_preserves (P := fun v => v.pkgParser.Sound)
    (fun _ _ hv hact => (Acts.single hact).sound hv) req (fun _ _ _ hv => hv) (fun _ _ hv => hv) hsound

/-- **Between two turns of the threads the parser is sound**, as long as there is a client. -/
theorem reach_sound {ok : World → List Bool × Label → World → Prop}
    (h : (clientLts cfg).Reach ok w) (hfreed : w.user ≠ .freed) : w.pkgParser.Sound := by
  refine h.invariant (P := fun w => w.user ≠ .freed → w.pkgParser.Sound) ?_ ?_ hfreed
  · rintro _ ⟨reqId, files, -, rfl⟩ -
    have hnew : pkgParserNew.AtRest := ⟨rfl, rfl, rfl, rfl, rfl, rfl, rfl⟩
    exact hnew.sound
  · rintro w ⟨supply, l⟩ w' _ hw hstep _ hfreed
    have hsound : w.pkgParser.Sound := hw (step_not_freed hstep)
    have htends : Tends cfg supply w w' := step_tends hstep
    cases htends with
    | acts hacts => exact hacts.sound hsound
    | reads t ms data => exact sound_clientOnTcpRead ms data hsound
    | fires i req _ => exact sound_asyncWriteCb req hsound
    | frees =>
      obtain ⟨v, hacts, ⟨-, heq⟩ | heq⟩ := clientFree_cases cfg { w with supply := supply }
      · rw [heq]
        exact hacts.sound hsound
      · rw [heq] at hfreed
        exact absurd rfl hfreed

end Sound

end Libpomelo
