import Libpomelo.ParserLife

/-!
# Packages behind a teardown

One read may hold several packages, and handling one of them may stop the client: it is
closed, or reset for a reconnect. `pc_pkg_parser_feed` does not look: it goes on with the
bytes behind the package as if nothing had happened. They are handled on a client without
a connection, or stay in the parser as the beginning of the next connection's first
package. So the feed stops at a teardown exactly when no bytes stand behind the package
that caused it (`stopsAtTeardown_iff`).
-/

namespace Libpomelo

/-- The event ends the connection: the client is closed, or reset for a reconnect. -/
def Event.tears : Event → Bool
  | .closed | .reset _ => true
  | _ => false

/-- What was recorded since `w₀`, newest first. -/
def World.since (w₀ w : World) : List Event := w.trace.take (w.trace.length - w₀.trace.length)

/-- A package was handled after the connection had ended. -/
def dispatchedBehind : List Event → Bool
  | [] => false
  | e :: earlier => e.dispatches && earlier.any Event.tears || dispatchedBehind earlier

/-- **The feed stops at a teardown.** It returns, no package is handled once the connection
has ended, and if it has, the parser is in its initial state. A handler that crashes does
not come back to the loop. -/
def StopsAtTeardown (cfg : Config) (ms : List Bool) (w : World) (data : Bytes) : Prop :=
  ∃ r ∈ pkgParserFeed (clientHost cfg) ms w data,
    dispatchedBehind (w.since r.2) = false ∧
      ((w.since r.2).any Event.tears = true → r.2.halted = none → r.2.pkgParser.AtRest)

/-- Feeding these bytes alone ends the connection. -/
def TearsDown (cfg : Config) (ms : List Bool) (w : World) (data : Bytes) : Prop :=
  ∃ r ∈ pkgParserFeed (clientHost cfg) ms w data,
    r.2.halted = none ∧ (w.since r.2).any Event.tears = true

instance (p : PkgParser) : Decidable p.AtRest := by
  unfold PkgParser.AtRest
  infer_instance

instance (cfg : Config) (ms : List Bool) (w : World) (data : Bytes) :
    Decidable (StopsAtTeardown cfg ms w data) := by
  unfold StopsAtTeardown
  infer_instance

instance (cfg : Config) (ms : List Bool) (w : World) (data : Bytes) :
    Decidable (TearsDown cfg ms w data) := by
  unfold TearsDown
  infer_instance

/-! ## Histories -/

theorem World.since_eq {w₀ w : World} {newer : List Event} (h : w.trace = newer ++ w₀.trace) :
    w₀.since w = newer := by
  rw [World.since, h, List.length_append, Nat.add_sub_cancel]
  exact List.take_left' rfl

theorem dispatchedBehind_of_whole {es : List Event} (h : es.any Event.tears = false) :
    dispatchedBehind es = false := by
  induction es with
  | nil => rfl
  | cons e es ih =>
    rw [List.any_cons, Bool.or_eq_false_iff] at h
    rw [dispatchedBehind, h.2, Bool.and_false, Bool.false_or]
    exact ih h.2

/-- Events that are no packages change nothing. -/
theorem dispatchedBehind_append {later es : List Event} (h : ∀ e ∈ later, e.dispatches = false) :
    dispatchedBehind (later ++ es) = dispatchedBehind es := by
  induction later with
  | nil => rfl
  | cons e later ih =>
    rw [List.cons_append, dispatchedBehind, h e List.mem_cons_self, Bool.false_and, Bool.false_or]
    exact ih fun e' he' => h e' (List.mem_cons_of_mem e he')

/-- What was handled behind a teardown stays so. -/
theorem dispatchedBehind_mono {es : List Event} (later : List Event)
    (h : dispatchedBehind es = true) : dispatchedBehind (later ++ es) = true := by
  induction later with
  | nil => exact h
  | cons e later ih => rw [List.cons_append, dispatchedBehind, ih, Bool.or_true]

section

variable {cfg : Config} {w w' : World}

/-- The history after a package: the package, and what its handler recorded. -/
theorem deliver_trace (hrun : w.halted = none) (p : PkgParser) :
    ∃ later, ((clientHost cfg).deliver w p).trace =
        later ++ .pkg p.type p.pkgBuf.bytes :: w.trace ∧
      ∀ e ∈ later, e.dispatches = false := by
  have hcb : ((clientHost cfg).deliver w p).trace =
      ({ w with pkgParser := p }.andThen (pkgCb cfg p.type p.pkgBuf.bytes)).trace := rfl
  have hrun' : ({ w with pkgParser := p } : World).halted = none := hrun
  rw [hcb, World.andThen_of_none hrun']
  obtain ⟨later, htrace, hspared⟩ :=
    (acts_pkgCb p.type p.pkgBuf.bytes { w with pkgParser := p }).spares.trace
  exact ⟨later, htrace, fun e he => Event.dispatches_of_spared (hspared e he)⟩

/-- A package on a connection that had not ended is not behind a teardown. -/
theorem deliver_since {w₀ : World} {earlier : List Event} (hrun : w.halted = none)
    (hsince : w.trace = earlier ++ w₀.trace) (hwhole : earlier.any Event.tears = false)
    (p : PkgParser) :
    ∃ newer, ((clientHost cfg).deliver w p).trace = newer ++ w₀.trace ∧
      dispatchedBehind newer = false := by
  obtain ⟨later, hlater, hquiet⟩ := deliver_trace hrun p
  refine ⟨later ++ .pkg p.type p.pkgBuf.bytes :: earlier, ?_, ?_⟩
  · rw [hlater, hsince, List.append_assoc, List.cons_append]
  · rw [dispatchedBehind_append hquiet, dispatchedBehind, hwhole, dispatchedBehind_of_whole hwhole]
    rfl

/-- The feed only adds to the history. -/
theorem Feeds.trace_suffix {ms : List Bool} {data : Bytes} {rc : ℤ}
    (h : Feeds cfg ms w data rc w') : w.trace <:+ w'.trace := by
  refine feedLoop_preserves (clientHost cfg) (P := fun v => w.trace <:+ v.trace) ?_ ?_ _
    (List.suffix_refl _) (h _ le_rfl)
  · exact fun _ _ hv => hv
  · intro type buf len v hv
    change w.trace <:+ (v.andThen (pkgCb cfg type buf.bytes)).trace
    rw [World.andThen]
    split
    · exact hv
    · obtain ⟨later, htrace, -⟩ := (acts_pkgCb type buf.bytes v).spares.trace
      rw [htrace]
      exact hv.trans ((List.suffix_cons _ _).trans (List.suffix_append _ _))

/-- Once the program is gone, nothing is recorded. -/
theorem Feeds.halted {ms : List Bool} {data : Bytes} {rc : ℤ} (h : Feeds cfg ms w data rc w')
    (hgone : w.halted ≠ none) : w'.trace = w.trace ∧ w'.halted = w.halted := by
  refine feedLoop_preserves (clientHost cfg)
    (P := fun v => v.trace = w.trace ∧ v.halted = w.halted) ?_ ?_ _ ⟨rfl, rfl⟩ (h _ le_rfl)
  · exact fun _ _ hv => hv
  · intro type buf len v hv
    have hsome : v.halted.isSome = true := by
      rw [hv.2]
      exact Option.isSome_iff_ne_none.mpr hgone
    change (v.andThen (pkgCb cfg type buf.bytes)).trace = w.trace ∧
      (v.andThen (pkgCb cfg type buf.bytes)).halted = w.halted
    rw [World.andThen_of_some hsome]
    exact hv

/-! ## The feed -/

/-- No package behind a teardown since `w₀`, and a teardown leaves the parser at rest. -/
def World.Stopped (w₀ w : World) : Prop :=
  dispatchedBehind (w₀.since w) = false ∧
    ((w₀.since w).any Event.tears = true → w.halted = none → w.pkgParser.AtRest)

/-- The client runs, and its connection ended since `w₀`. -/
def World.Torn (w₀ w : World) : Prop := w.halted = none ∧ (w₀.since w).any Event.tears = true

/-- **Bytes behind a teardown** are stored or handled. -/
theorem Feeds.not_stopped {w₀ : World} {ms : List Bool} {data : Bytes} {rc : ℤ}
    (h : Feeds cfg ms w data rc w') (hsound : w.pkgParser.Sound) (hne : data ≠ [])
    {earlier : List Event} (hsince : w.trace = earlier ++ w₀.trace) (htorn : w₀.Torn w) :
    ¬ w₀.Stopped w' := by
  obtain ⟨hrun, htears⟩ := htorn
  have hturn : ClientTurn cfg ms w data := clientTurn_of_sound hsound hne
  cases hturn with
  | keeps rc' p _ hrest hkeeps _ =>
    obtain ⟨-, rfl⟩ := h.unique hkeeps
    exact fun hstopped => hrest (hstopped.2 htears hrun)
  | delivers used rest ms' p hdata _ hatrest hfeeds _ =>
    obtain ⟨rc', w₁, hrest, -⟩ := feeds_total cfg rest.length ms' le_rfl hatrest.sound
    have hwhole := hfeeds rest rc' w₁ hrest
    rw [← hdata] at hwhole
    obtain ⟨-, rfl⟩ := h.unique hwhole
    obtain ⟨later, hlater, -⟩ := deliver_trace hrun p
    obtain ⟨more, hmore⟩ := hrest.trace_suffix
    rintro ⟨hbehind, -⟩
    have htrace : w'.trace =
        (more ++ later ++ .pkg p.type p.pkgBuf.bytes :: earlier) ++ w₀.trace := by
      rw [← hmore, hlater, hsince]
      simp
    rw [World.since_eq htrace] at hbehind
    rw [World.since_eq hsince] at htears
    have hpkg : dispatchedBehind (.pkg p.type p.pkgBuf.bytes :: earlier) = true := by
      rw [dispatchedBehind, htears]
      rfl
    rw [dispatchedBehind_mono _ hpkg] at hbehind
    exact Bool.noConfusion hbehind

theorem World.stopped_of_whole {w₀ : World} {newer : List Event}
    (hsince : w.trace = newer ++ w₀.trace) (hwhole : newer.any Event.tears = false) :
    w₀.Stopped w := by
  rw [World.Stopped, World.since_eq hsince]
  exact ⟨dispatchedBehind_of_whole hwhole, fun htears => absurd (hwhole.symm.trans htears) (by simp)⟩

theorem World.not_torn_of_whole {w₀ : World} {newer : List Event}
    (hsince : w.trace = newer ++ w₀.trace) (hwhole : newer.any Event.tears = false) :
    ¬ w₀.Torn w := by
  rintro ⟨-, htears⟩
  rw [World.since_eq hsince] at htears
  exact absurd (hwhole.symm.trans htears) (by simp)

/-- No part of the bytes that leaves others unread ends the connection. -/
def NoFrontTears (cfg : Config) (w₀ : World) (ms : List Bool) (w : World) (data : Bytes) : Prop :=
  ∀ front back rc₁ w₁, data = front ++ back → back ≠ [] → Feeds cfg ms w front rc₁ w₁ →
    ¬ w₀.Torn w₁

theorem NoFrontTears.nil {w₀ : World} {ms : List Bool} : NoFrontTears cfg w₀ ms w [] := by
  intro front back rc₁ w₁ hdata hback
  exact absurd (List.append_eq_nil_iff.mp hdata.symm).2 hback

/-- A part of a read is a part of its first package, or that package and a part of what
follows. -/
theorem noFrontTears_delivers {w₀ : World} {ms ms' : List Bool} {p : PkgParser} {used rest : Bytes}
    (hatrest : ((clientHost cfg).deliver w p).pkgParser.AtRest)
    (hnext : ∀ tail rc w', Feeds cfg ms' ((clientHost cfg).deliver w p) tail rc w' →
      Feeds cfg ms w (used ++ tail) rc w')
    (hfront : ∀ front back, used = front ++ back → back ≠ [] →
      ∃ rc p, Feeds cfg ms w front rc { w with pkgParser := p })
    (hkeeps : ∀ p, ¬ w₀.Torn { w with pkgParser := p }) :
    NoFrontTears cfg w₀ ms w (used ++ rest) ↔
      NoFrontTears cfg w₀ ms' ((clientHost cfg).deliver w p) rest := by
  constructor
  · intro hall front back rc₁ w₁ hdata hback hfeeds
    refine hall (used ++ front) back rc₁ w₁ ?_ hback (hnext front rc₁ w₁ hfeeds)
    rw [hdata, List.append_assoc]
  · intro hall front back rc₁ w₁ hdata hback hfeeds
    have hbehind : ∀ tail, front = used ++ tail → rest = tail ++ back → ¬ w₀.Torn w₁ := by
      intro tail htail hrest
      obtain ⟨rc₂, w₂, hfeeds₂, -⟩ := feeds_total cfg tail.length ms' le_rfl hatrest.sound
      have hsame := hnext tail rc₂ w₂ hfeeds₂
      rw [← htail] at hsame
      obtain ⟨-, rfl⟩ := hfeeds.unique hsame
      exact hall tail back rc₂ w₁ hrest hback hfeeds₂
    rcases List.append_eq_append_iff.mp hdata with ⟨tail, htail, hrest⟩ | ⟨missing, hused, hmissing⟩
    · exact hbehind tail htail hrest
    · by_cases hnil : missing = []
      · subst hnil
        rw [List.append_nil] at hused
        exact hbehind [] (by rw [hused, List.append_nil]) hmissing.symm
      · obtain ⟨rc₂, p₂, hstored⟩ := hfront front missing hused hnil
        obtain ⟨-, rfl⟩ := hfeeds.unique hstored
        exact hkeeps p₂

/-- **The feed of one read**, from a turn of the loop at which the connection had not
ended. -/
theorem Feeds.stopped_iff {w₀ : World} :
    ∀ (n : ℕ) {ms : List Bool} {w w' : World} {data : Bytes} {rc : ℤ} {earlier : List Event},
      data.length ≤ n → w.pkgParser.Sound → w.halted = none → w.trace = earlier ++ w₀.trace →
      earlier.any Event.tears = false → Feeds cfg ms w data rc w' →
      (w₀.Stopped w' ↔ NoFrontTears cfg w₀ ms w data) := by
  intro n
  induction n with
  | zero =>
    intro ms w w' data rc earlier hlen hsound hrun hsince hwhole hfeeds
    obtain rfl := List.eq_nil_of_length_eq_zero (Nat.le_zero.mp hlen)
    obtain ⟨-, rfl⟩ := hfeeds.unique (.nil ms w)
    exact iff_of_true (World.stopped_of_whole hsince hwhole) .nil
  | succ n ih =>
    intro ms w w' data rc earlier hlen hsound hrun hsince hwhole hfeeds
    have hkeeps : ∀ p, ¬ w₀.Torn { w with pkgParser := p } := fun p =>
      World.not_torn_of_whole hsince hwhole
    by_cases hne : data = []
    · subst hne
      exact ih (Nat.zero_le n) hsound hrun hsince hwhole hfeeds
    have hturn : ClientTurn cfg ms w data := clientTurn_of_sound hsound hne
    cases hturn with
    | keeps rc' p _ _ hkept hfront =>
      obtain ⟨-, rfl⟩ := hfeeds.unique hkept
      refine iff_of_true (World.stopped_of_whole hsince hwhole) ?_
      intro front back rc₁ w₁ hdata hback hfeeds₁
      obtain ⟨rc₂, p₂, hstored⟩ := hfront front back hdata hback
      obtain ⟨-, rfl⟩ := hfeeds₁.unique hstored
      exact hkeeps p₂
    | delivers used rest ms' p hdata hused hatrest hnext hfront =>
      obtain ⟨rc₁, w₁, hrest, -⟩ := feeds_total cfg rest.length ms' le_rfl hatrest.sound
      have hsame := hnext rest rc₁ w₁ hrest
      rw [← hdata] at hsame
      obtain ⟨-, rfl⟩ := hfeeds.unique hsame
      obtain ⟨newer, hsince', hbehind⟩ := deliver_since hrun hsince hwhole p
      rw [hdata, noFrontTears_delivers hatrest hnext hfront hkeeps]
      set v := (clientHost cfg).deliver w p with hv
      by_cases hgone : v.halted = none
      · by_cases htears : newer.any Event.tears = true
        · -- the package ended the connection
          have htorn : w₀.Torn v := ⟨hgone, by rw [World.since_eq hsince']; exact htears⟩
          by_cases hnil : rest = []
          · subst hnil
            obtain ⟨-, rfl⟩ := hrest.unique (.nil ms' v)
            refine iff_of_true ⟨?_, fun _ _ => hatrest⟩ .nil
            rw [World.since_eq hsince']
            exact hbehind
          · exact iff_of_false (hrest.not_stopped hatrest.sound hnil hsince' htorn)
              fun hall => hall [] rest 0 v rfl hnil (.nil ms' v) htorn
        · -- it did not, and the feed goes on
          have hwhole' : newer.any Event.tears = false := by simpa using htears
          have hpos : 0 < used.length := List.length_pos_of_ne_nil hused
          rw [hdata, List.length_append] at hlen
          exact ih (by omega) hatrest.sound hgone hsince' hwhole' hrest
      · -- its handler did not come back
        obtain ⟨htrace, hhalted⟩ := hrest.halted hgone
        have hstopped : w₀.Stopped w' := by
          refine ⟨?_, fun _ hrunning => absurd (hhalted.symm.trans hrunning) hgone⟩
          rw [World.since_eq (htrace.trans hsince')]
          exact hbehind
        refine iff_of_true hstopped fun front back rc₂ w₂ _ _ hfeeds₂ htorn => ?_
        exact hgone ((hfeeds₂.halted hgone).2.symm.trans htorn.1)

/-! ## Reads -/

/-- **When the feed stops at a teardown.** For every reachable state and every chunk that is
read: once handling a package has ended the connection, no further package of the chunk is
handled and the feed returns with the parser in its initial state, if and only if no proper
part of the chunk, read alone, ends the connection: nothing stands behind the package that
does. -/
theorem stopsAtTeardown_iff {supply ms : List Bool} {t : ℕ} {data : Bytes}
    (h : Reachable cfg w) (hstep : step cfg supply (.tcpRead t ms (.bytes data)) w = some w') :
    StopsAtTeardown cfg ms (w.receives supply t) data ↔
      ∀ front back, data = front ++ back → back ≠ [] →
        ¬ TearsDown cfg ms (w.receives supply t) front := by
  have hparser : w.pkgParser.Sound := reach_sound h (step_not_freed hstep)
  have hsound : (w.receives supply t).pkgParser.Sound := hparser
  have hrun : w.halted = none := step_halted hstep
  have hrun' : (w.receives supply t).halted = none := hrun
  generalize w.receives supply t = v at hsound hrun'
  obtain ⟨rc, v', hfeeds, -⟩ := feeds_total cfg data.length ms le_rfl hsound
  have hiff := Feeds.stopped_iff data.length le_rfl hsound hrun' (List.nil_append v.trace).symm rfl
    hfeeds
  have hstops : StopsAtTeardown cfg ms v data ↔ v.Stopped v' := by
    simp [StopsAtTeardown, World.Stopped, hfeeds.feed_eq]
  rw [hstops, hiff]
  constructor
  · rintro hall front back hdata hback ⟨⟨rc₁, v₁⟩, hfeed, htorn⟩
    exact hall front back rc₁ v₁ hdata hback (feeds_of_feed hsound hfeed) htorn
  · intro hall front back rc₁ v₁ hdata hback hfeeds₁ htorn
    exact hall front back hdata hback ⟨(rc₁, v₁), hfeeds₁.feed_eq, htorn⟩

end

/-- A package of an unknown type closes the client, and nothing stands behind it. -/
theorem stopsAtTeardown_alone :
    ∃ w w', runSteps (plainConfig false) plainStart plainInit = some w ∧
      step (plainConfig false) [] (.tcpRead 0 [] (.bytes [9, 0, 0, 0])) w = some w' ∧
      TearsDown (plainConfig false) [] (w.receives [] 0) [9, 0, 0, 0] ∧
      StopsAtTeardown (plainConfig false) [] (w.receives [] 0) [9, 0, 0, 0] := by
  have hrun : ∃ w w', runSteps (plainConfig false) plainStart plainInit = some w ∧
      step (plainConfig false) [] (.tcpRead 0 [] (.bytes [9, 0, 0, 0])) w = some w' ∧
      TearsDown (plainConfig false) [] (w.receives [] 0) [9, 0, 0, 0] ∧
      ∀ k < 4, ¬ TearsDown (plainConfig false) [] (w.receives [] 0) ([9, 0, 0, 0].take k) :=
    ⟨_, _, rfl, rfl, by decide +kernel, by decide +kernel⟩
  obtain ⟨w, w', hrun, hstep, htears, hparts⟩ := hrun
  refine ⟨w, w', hrun, hstep, htears, ?_⟩
  refine (stopsAtTeardown_iff (reachable_of_run hrun) hstep).mpr fun front back hdata hback => ?_
  have hlen := congrArg List.length hdata
  have hpos := List.length_pos_of_ne_nil hback
  rw [List.length_append] at hlen
  have hpart := hparts front.length (by simp at hlen; omega)
  rwa [hdata, List.take_left' rfl] at hpart

/-- **A heartbeat behind it** is handled on a closed client, whose timers are gone. -/
theorem not_stopsAtTeardown_heartbeat :
    ∃ w w', runSteps (plainConfig false) plainStart plainInit = some w ∧
      Reachable (plainConfig false) w ∧ w.state = .working ∧ w.working 0 = true ∧
      step (plainConfig false) [] (.tcpRead 0 [] (.bytes [9, 0, 0, 0, 3, 0, 0, 0])) w = some w' ∧
      w'.state = .closed ∧ w'.halted = some .crash ∧
      ¬ StopsAtTeardown (plainConfig false) [] (w.receives [] 0) [9, 0, 0, 0, 3, 0, 0, 0] := by
  have hrun : ∃ w w', runSteps (plainConfig false) plainStart plainInit = some w ∧
      w.state = .working ∧ w.working 0 = true ∧
      step (plainConfig false) [] (.tcpRead 0 [] (.bytes [9, 0, 0, 0, 3, 0, 0, 0])) w = some w' ∧
      w'.state = .closed ∧ w'.halted = some .crash ∧
      ¬ StopsAtTeardown (plainConfig false) [] (w.receives [] 0) [9, 0, 0, 0, 3, 0, 0, 0] :=
    ⟨_, _, rfl, rfl, rfl, rfl, rfl, rfl, by decide +kernel⟩
  obtain ⟨w, w', hrun, hrest⟩ := hrun
  exact ⟨w, w', hrun, reachable_of_run hrun, hrest⟩

end Libpomelo
