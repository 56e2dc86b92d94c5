import Libpomelo.Listeners
import Libpomelo.MapStores

/-!
# The registry is a map from event names to lists of callbacks

`ListenerRegistry.Holds reg lists heads ns` is the representation invariant: the map holds
the head of every event that has one (`heads`), and behind the head of an event hang its
listeners `ns`, whose callbacks are the event's list. The calls are made of five moves
that keep it: a listener is allocated, a head is allocated and named, a listener is linked,
unlinked and freed, and an empty head is freed with its name.

Between two calls no event has an empty queue (`ListenerRegistry.Represents`), and every
call does to the lists what its name says (`listeners_refine`).
-/

namespace Libpomelo

variable {γ : Type}

/-- The node at which a walk of the queue behind `h` stands when the listeners `ns` are left. -/
def queueAt (h : ℕ) : List ℕ → ListenerNode
  | [] => .head h
  | n :: _ => .listener n

/-- The nodes of a queue. -/
def queueNodes (h : ℕ) (ns : List ℕ) : List ListenerNode := .head h :: ns.map .listener

theorem headD_queueAt (h : ℕ) (ns : List ℕ) :
    (ns.map ListenerNode.listener).headD (.head h) = queueAt h ns := by
  cases ns <;> rfl

theorem mem_queueNodes_listener {h n : ℕ} {ns : List ℕ} :
    ListenerNode.listener n ∈ queueNodes h ns ↔ n ∈ ns := by
  simp [queueNodes]

theorem mem_queueNodes_head {h h' : ℕ} {ns : List ℕ} :
    ListenerNode.head h' ∈ queueNodes h ns ↔ h' = h := by
  simp [queueNodes]

/-- Two queues with different heads and no common listener share no node. -/
theorem queueNodes_disjoint {h h' : ℕ} {ns ns' : List ℕ} (hh : h ≠ h')
    (hns : ∀ n ∈ ns, n ∉ ns') : ∀ z ∈ queueNodes h ns, z ∉ queueNodes h' ns' := by
  intro z hz hz'
  cases z with
  | head k =>
    rw [mem_queueNodes_head] at hz hz'
    exact hh (hz.symm.trans hz')
  | listener k =>
    rw [mem_queueNodes_listener] at hz hz'
    exact hns k hz hz'

/-- An event with a head is none without. -/
theorem ne_of_bare {heads : CString → Option ℕ} {e e' : CString} {h : ℕ} (hh : heads e = some h)
    (hh' : heads e' = none) : e' ≠ e := by
  rintro rfl
  exact absurd (hh.symm.trans hh') (by simp)

namespace ListenerRegistry

/-- **The representation invariant.** -/
structure Holds (reg : ListenerRegistry γ) (lists : CString → List γ)
    (heads : CString → Option ℕ) (ns : CString → List ℕ) : Prop where
  /-- the client is open -/
  opened : reg.closed = false
  /-- the map holds the heads -/
  map : reg.map.Stores heads
  /-- an event without a head has no listeners -/
  bare : ∀ e, heads e = none → ns e = []
  /-- behind a head hang the listeners of its event -/
  ring : ∀ e h, heads e = some h → IsRing reg.links (.head h) ((ns e).map .listener)
  /-- heads in the map are allocated -/
  live : ∀ e h, heads e = some h → reg.heads h = true
  /-- the listeners of an event are allocated, with the callbacks of its list -/
  listed : ∀ e, (ns e).map reg.listeners = (lists e).map some
  /-- heads that are not made yet are not allocated -/
  headFresh : ∀ n, reg.headsMade ≤ n → reg.heads n = false
  /-- nor are listeners -/
  listenerFresh : ∀ n, reg.listenersMade ≤ n → reg.listeners n = none
  /-- two events have different heads -/
  headUnique : ∀ e e' h, heads e = some h → heads e' = some h → e = e'
  /-- and different listeners -/
  listenerUnique : ∀ e e' n, n ∈ ns e → n ∈ ns e' → e = e'

namespace Holds

variable {reg : ListenerRegistry γ} {lists : CString → List γ} {heads : CString → Option ℕ}
  {ns : CString → List ℕ} {e : CString} {h : ℕ}

theorem allocated (hH : reg.Holds lists heads ns) {n : ℕ} (hn : n ∈ ns e) :
    ∃ cb, reg.listeners n = some cb := by
  have hmem := List.mem_map_of_mem (f := reg.listeners) hn
  rw [hH.listed] at hmem
  obtain ⟨cb, -, hcb⟩ := List.mem_map.mp hmem
  exact ⟨cb, hcb.symm⟩

/-- A listener that is not made yet hangs nowhere. -/
theorem not_mem_of_fresh (hH : reg.Holds lists heads ns) {n : ℕ} (hn : reg.listenersMade ≤ n)
    (e : CString) : n ∉ ns e := by
  intro hmem
  obtain ⟨cb, hcb⟩ := hH.allocated hmem
  rw [hH.listenerFresh n hn] at hcb
  exact absurd hcb (by simp)

/-- A queue is no longer than the number of listeners made. -/
theorem length_le (hH : reg.Holds lists heads ns) (hh : heads e = some h) :
    (ns e).length ≤ reg.listenersMade := by
  have hnd : (ns e).Nodup := ((List.nodup_cons.mp (hH.ring e h hh).nodup).2).of_map _
  refine length_le_of_nodup_of_lt hnd fun n hn => ?_
  by_contra hge
  exact hH.not_mem_of_fresh (Nat.not_lt.mp hge) e hn

/-- The queues of two events share no node. -/
theorem disjoint (hH : reg.Holds lists heads ns) {e' : CString} {h' : ℕ} (hne : e' ≠ e)
    (hh : heads e = some h) (hh' : heads e' = some h') :
    ∀ z ∈ queueNodes h' (ns e'), z ∉ queueNodes h (ns e) := by
  refine queueNodes_disjoint (fun heq => ?_) fun n hn hn' => ?_
  · exact hne (hH.headUnique e' e h (heq ▸ hh') hh)
  · exact hne (hH.listenerUnique e' e n hn hn')

/-! ## Walks -/

/-- The head that `pc_map_get` gives may be used. -/
theorem queue (hH : reg.Holds lists heads ns) (e : CString) : reg.queue e = some (heads e) := by
  rw [ListenerRegistry.queue, hH.map.get e]
  cases hh : heads e with
  | none => rfl
  | some h =>
    have hlive := hH.live e h hh
    simp [hlive]

/-- A walk that stands at a listener: the queue is not empty, and the next node follows. -/
theorem walk (hH : reg.Holds lists heads ns) (hh : heads e = some h) {n : ℕ} {xs ys : List ℕ}
    (hns : ns e = xs ++ n :: ys) :
    reg.links.empty (.head h) = false ∧ reg.links.next (.listener n) = queueAt h ys := by
  have hring := hH.ring e h hh
  have hmap : (ns e).map ListenerNode.listener =
      xs.map .listener ++ .listener n :: ys.map .listener := by
    rw [hns, List.map_append, List.map_cons]
  rw [hmap] at hring
  constructor
  · rw [Bool.eq_false_iff]
    intro hempty
    exact absurd (hring.empty_iff.mp hempty) (by simp)
  · rw [hring.next_of_append, headD_queueAt]

theorem walk_start (hH : reg.Holds lists heads ns) (hh : heads e = some h) :
    reg.links.next (.head h) = queueAt h (ns e) := by
  rw [(hH.ring e h hh).next_head, headD_queueAt]

/-- The loop of `pc_emit_event` calls back in the order of the queue. -/
theorem callbacks (hH : reg.Holds lists heads ns) (hh : heads e = some h) :
    ∀ (fuel : ℕ) (xs ys : List ℕ) (cbs : List γ), ns e = xs ++ ys →
      ys.map reg.listeners = cbs.map some → ys.length < fuel →
      reg.callbacks (.head h) fuel (queueAt h ys) = some cbs
  | 0, _, _, _, _, _, hlt => absurd hlt (Nat.not_lt_zero _)
  | fuel + 1, xs, [], cbs, _, hcbs, _ => by
    have hnil : cbs = [] := by simpa using hcbs.symm
    simp [ListenerRegistry.callbacks, queueAt, hnil]
  | fuel + 1, xs, n :: ys, cbs, hns, hcbs, hlt => by
    obtain ⟨hempty, hnext⟩ := hH.walk hh hns
    cases cbs with
    | nil => exact absurd hcbs (by simp)
    | cons cb cbs =>
      obtain ⟨hcb, hrest⟩ := List.cons.inj hcbs
      have ih := hH.callbacks hh fuel (xs ++ [n]) ys cbs (by simp [hns]) hrest
        (Nat.lt_of_succ_lt_succ hlt)
      rw [queueAt]
      simp [ListenerRegistry.callbacks, hempty, listenerAt, hcb, hnext, ih]

/-- **`pc_emit_event`** invokes the callbacks of the event. -/
theorem emitEvent (hH : reg.Holds lists heads ns) (e : CString) :
    reg.emitEvent e = some (lists e) := by
  rw [ListenerRegistry.emitEvent, hH.queue e]
  cases hh : heads e with
  | none =>
    have hlisted := hH.listed e
    rw [hH.bare e hh] at hlisted
    have hnil : lists e = [] := by simpa using hlisted.symm
    rw [hnil]
    rfl
  | some h =>
    have hcalls := hH.callbacks hh (reg.listenersMade + 1) [] (ns e) (lists e) rfl (hH.listed e)
      (Nat.lt_succ_of_le (hH.length_le hh))
    rw [← hH.walk_start hh] at hcalls
    exact hcalls

/-! ## Moves -/

/-- A listener is allocated. -/
theorem newListener (hH : reg.Holds lists heads ns) (cb : γ) :
    (reg.newListener cb).Holds lists heads ns where
  opened := hH.opened
  map := hH.map
  bare := hH.bare
  ring e h hh := by
    refine (hH.ring e h hh).init_other fun hmem => ?_
    exact hH.not_mem_of_fresh (Nat.le_refl _) e (mem_queueNodes_listener.mp hmem)
  live := hH.live
  listed e := by
    rw [← hH.listed e]
    refine List.map_congr_left fun n hn => Function.update_of_ne ?_ _ _
    rintro rfl
    exact hH.not_mem_of_fresh (Nat.le_refl _) e hn
  headFresh := hH.headFresh
  listenerFresh n hn := by
    have hn' : reg.listenersMade + 1 ≤ n := hn
    exact (Function.update_of_ne (by omega) _ _).trans (hH.listenerFresh n (by omega))
  headUnique := hH.headUnique
  listenerUnique := hH.listenerUnique

/-- A head is allocated for an event without one, and named. -/
theorem newHead (hH : reg.Holds lists heads ns) (he : heads e = none) :
    ∃ map, reg.newHead.map.set (reg.newHead.map.made + 1) e (some reg.headsMade) = some map ∧
      { reg.newHead with map := map }.Holds lists (Function.update heads e (some reg.headsMade))
        ns := by
  obtain ⟨map, hset, hstores⟩ := hH.map.set he reg.headsMade
  have hfresh := hH.headFresh reg.headsMade (Nat.le_refl _)
  have hold : ∀ e' h', heads e' = some h' → h' ≠ reg.headsMade := by
    rintro e' h' hh' rfl
    rw [hH.live e' _ hh'] at hfresh
    exact Bool.noConfusion hfresh
  have hnames : ∀ e' h', Function.update heads e (some reg.headsMade) e' = some h' →
      (e' = e ∧ h' = reg.headsMade) ∨ (e' ≠ e ∧ heads e' = some h') := by
    intro e' h' hh'
    rcases eq_or_ne e' e with rfl | hne
    · rw [Function.update_self] at hh'
      exact .inl ⟨rfl, (Option.some.inj hh').symm⟩
    · rw [Function.update_of_ne hne] at hh'
      exact .inr ⟨hne, hh'⟩
  refine ⟨map, hset, hH.opened, hstores, fun e' hh' => ?_, fun e' h' hh' => ?_, fun e' h' hh' => ?_,
    hH.listed, fun n hn => ?_, hH.listenerFresh, fun e₁ e₂ h' h₁ h₂ => ?_, hH.listenerUnique⟩
  · rcases eq_or_ne e' e with rfl | hne
    · exact hH.bare e' he
    · rw [Function.update_of_ne hne] at hh'
      exact hH.bare e' hh'
  · rcases hnames e' h' hh' with ⟨rfl, rfl⟩ | ⟨-, hh'⟩
    · rw [hH.bare e' he]
      exact ring_init _ _
    · refine (hH.ring e' h' hh').init_other fun hmem => ?_
      exact hold e' h' hh' (mem_queueNodes_head.mp hmem).symm
  · rcases hnames e' h' hh' with ⟨rfl, rfl⟩ | ⟨-, hh'⟩
    · exact Function.update_self ..
    · exact (Function.update_of_ne (hold e' h' hh') _ _).trans (hH.live e' h' hh')
  · have hn' : reg.headsMade + 1 ≤ n := hn
    exact (Function.update_of_ne (by omega) _ _).trans (hH.headFresh n (by omega))
  · rcases hnames e₁ h' h₁ with ⟨rfl, rfl⟩ | ⟨-, hold₁⟩
    · rcases hnames e₂ _ h₂ with ⟨rfl, -⟩ | ⟨-, hold₂⟩
      · rfl
      · exact absurd rfl (hold e₂ _ hold₂)
    · rcases hnames e₂ h' h₂ with ⟨rfl, rfl⟩ | ⟨-, hold₂⟩
      · exact absurd rfl (hold e₁ _ hold₁)
      · exact hH.headUnique e₁ e₂ h' hold₁ hold₂

/-- A listener that hangs nowhere is linked behind a head. -/
theorem insertTail (hH : reg.Holds lists heads ns) (hh : heads e = some h) {n : ℕ} {cb : γ}
    (hcb : reg.listeners n = some cb) (hn : ∀ e', n ∉ ns e') :
    (reg.insertTail h n).Holds (Function.update lists e (lists e ++ [cb])) heads
      (Function.update ns e (ns e ++ [n])) where
  opened := hH.opened
  map := hH.map
  bare e' hh' := by
    rw [Function.update_of_ne (ne_of_bare hh hh')]
    exact hH.bare e' hh'
  ring e' h' hh' := by
    have hnew : ∀ e' h', ListenerNode.listener n ∉ queueNodes h' (ns e') := fun e' _ hmem =>
      hn e' (mem_queueNodes_listener.mp hmem)
    rcases eq_or_ne e' e with rfl | hne
    · obtain rfl := Option.some.inj (hh'.symm.trans hh)
      rw [Function.update_self, List.map_append]
      exact (hH.ring e' h' hh').insertTail (hnew e' h')
    · rw [Function.update_of_ne hne]
      exact (hH.ring e h hh).insertTail_other (hH.ring e' h' hh') (hnew e' h')
        (hH.disjoint hne hh hh')
  live := hH.live
  listed e' := by
    rcases eq_or_ne e' e with rfl | hne
    · rw [Function.update_self, Function.update_self, List.map_append, List.map_append]
      exact congrArg₂ _ (hH.listed e') (congrArg (fun x => [x]) hcb)
    · rw [Function.update_of_ne hne, Function.update_of_ne hne]
      exact hH.listed e'
  headFresh := hH.headFresh
  listenerFresh := hH.listenerFresh
  headUnique := hH.headUnique
  listenerUnique e₁ e₂ k h₁ h₂ := by
    have hcases : ∀ e', k ∈ Function.update ns e (ns e ++ [n]) e' →
        k ∈ ns e' ∨ (e' = e ∧ k = n) := by
      intro e' hk
      rcases eq_or_ne e' e with rfl | hne
      · rw [Function.update_self, List.mem_append, List.mem_singleton] at hk
        exact hk.imp_right fun hk => ⟨rfl, hk⟩
      · rw [Function.update_of_ne hne] at hk
        exact .inl hk
    rcases hcases e₁ h₁ with hold₁ | ⟨rfl, rfl⟩
    · rcases hcases e₂ h₂ with hold₂ | ⟨-, rfl⟩
      · exact hH.listenerUnique e₁ e₂ k hold₁ hold₂
      · exact absurd hold₁ (hn e₁)
    · rcases hcases e₂ h₂ with hold₂ | ⟨rfl, -⟩
      · exact absurd hold₂ (hn e₂)
      · rfl

/-- A listener is unlinked and freed. -/
theorem removeFound (hH : reg.Holds lists heads ns) (hh : heads e = some h) {n : ℕ}
    {xs ys : List ℕ} {cbs : List γ} (hns : ns e = xs ++ n :: ys)
    (hcbs : (xs ++ ys).map reg.listeners = cbs.map some) :
    (reg.removeFound (some n)).Holds (Function.update lists e cbs) heads
      (Function.update ns e (xs ++ ys)) := by
  have hring := hH.ring e h hh
  have hmap : (ns e).map ListenerNode.listener =
      xs.map .listener ++ .listener n :: ys.map .listener := by
    rw [hns, List.map_append, List.map_cons]
  rw [hmap] at hring
  have hnodes : queueNodes h (ns e) =
      .head h :: (xs.map .listener ++ .listener n :: ys.map .listener) := congrArg _ hmap
  have hmem : n ∈ ns e := by
    rw [hns]
    simp
  have hnot : n ∉ xs ++ ys := by
    have hnd : (ns e).Nodup := ((List.nodup_cons.mp (hH.ring e h hh).nodup).2).of_map _
    rw [hns] at hnd
    exact (List.nodup_cons.mp (List.nodup_middle.mp hnd)).1
  have hkept : ∀ e' k, k ∈ Function.update ns e (xs ++ ys) e' → k ∈ ns e' ∧ k ≠ n := by
    intro e' k hk
    rcases eq_or_ne e' e with rfl | hne
    · rw [Function.update_self] at hk
      refine ⟨?_, fun heq => hnot (heq ▸ hk)⟩
      rw [hns]
      rcases List.mem_append.mp hk with hk | hk
      · exact List.mem_append_left _ hk
      · exact List.mem_append_right _ (List.mem_cons_of_mem n hk)
    · rw [Function.update_of_ne hne] at hk
      exact ⟨hk, fun heq => hne (hH.listenerUnique e' e n (heq ▸ hk) hmem)⟩
  -- the second removal, by `pc_listener_destroy`, changes nothing
  have hlinks : (reg.removeFound (some n)).links = reg.links.remove (.listener n) :=
    hring.remove_remove
  refine ⟨hH.opened, hH.map, fun e' hh' => ?_, fun e' h' hh' => ?_, hH.live, fun e' => ?_,
    hH.headFresh, fun k hk => ?_, hH.headUnique, fun e₁ e₂ k h₁ h₂ => ?_⟩
  · rw [Function.update_of_ne (ne_of_bare hh hh')]
    exact hH.bare e' hh'
  · rw [hlinks]
    rcases eq_or_ne e' e with rfl | hne
    · obtain rfl := Option.some.inj (hh'.symm.trans hh)
      rw [Function.update_self, List.map_append]
      exact hring.remove
    · rw [Function.update_of_ne hne]
      exact hring.remove_other (hH.ring e' h' hh') (hnodes ▸ hH.disjoint hne hh hh')
  · have hlisted : (Function.update ns e (xs ++ ys) e').map
        (reg.removeFound (some n)).listeners =
        (Function.update ns e (xs ++ ys) e').map reg.listeners :=
      List.map_congr_left fun k hk => Function.update_of_ne (hkept e' k hk).2 _ _
    rw [hlisted]
    rcases eq_or_ne e' e with rfl | hne
    · rw [Function.update_self, Function.update_self]
      exact hcbs
    · rw [Function.update_of_ne hne, Function.update_of_ne hne]
      exact hH.listed e'
  · have hgone : (reg.removeFound (some n)).listeners = Function.update reg.listeners n none := rfl
    rw [hgone]
    rcases eq_or_ne k n with rfl | hne
    · exact Function.update_self ..
    · rw [Function.update_of_ne hne]
      exact hH.listenerFresh k hk
  · exact hH.listenerUnique e₁ e₂ k (hkept e₁ k h₁).1 (hkept e₂ k h₂).1

/-- A head without listeners is freed with its name. -/
theorem dropHead (hH : reg.Holds lists heads ns) (hh : heads e = some h) (hns : ns e = []) :
    ∃ map, reg.map.del (reg.map.made + 1) e = some (map, some h) ∧
      { reg with map := map, heads := Function.update reg.heads h false }.Holds lists
        (Function.update heads e none) ns := by
  obtain ⟨map, hdel, hstores⟩ := hH.map.del e
  rw [hh] at hdel
  have hnames : ∀ e' h', Function.update heads e none e' = some h' → e' ≠ e ∧ heads e' = some h' := by
    intro e' h' hh'
    rcases eq_or_ne e' e with rfl | hne
    · rw [Function.update_self] at hh'
      exact absurd hh' (by simp)
    · rw [Function.update_of_ne hne] at hh'
      exact ⟨hne, hh'⟩
  refine ⟨map, hdel, hH.opened, hstores, fun e' hh' => ?_, fun e' h' hh' => ?_, fun e' h' hh' => ?_,
    hH.listed, fun n hn => ?_, hH.listenerFresh, fun e₁ e₂ h' h₁ h₂ => ?_, hH.listenerUnique⟩
  · rcases eq_or_ne e' e with rfl | hne
    · exact hns
    · rw [Function.update_of_ne hne] at hh'
      exact hH.bare e' hh'
  · exact hH.ring e' h' (hnames e' h' hh').2
  · obtain ⟨hne, hh'⟩ := hnames e' h' hh'
    refine (Function.update_of_ne ?_ _ _).trans (hH.live e' h' hh')
    rintro rfl
    exact hne (hH.headUnique e' e h' hh' hh)
  · rcases eq_or_ne n h with rfl | hne
    · exact Function.update_self ..
    · exact (Function.update_of_ne hne _ _).trans (hH.headFresh n hn)
  · exact hH.headUnique e₁ e₂ h' (hnames e₁ h' h₁).2 (hnames e₂ h' h₂).2

/-! ## The search -/

theorem empty_iff (hH : reg.Holds lists heads ns) (hh : heads e = some h) :
    reg.links.empty (.head h) = true ↔ ns e = [] := by
  rw [(hH.ring e h hh).empty_iff, List.map_eq_nil_iff]

variable [DecidableEq γ]

/-- The loop of `pc_remove_listener` stops at the first listener with the callback. -/
theorem find (hH : reg.Holds lists heads ns) (hh : heads e = some h) (cb : γ) :
    ∀ (fuel : ℕ) (xs ys : List ℕ), ns e = xs ++ ys → ys.length < fuel →
      reg.find cb (.head h) fuel (queueAt h ys) =
        some (ys.find? fun n => decide (reg.listeners n = some cb))
  | 0, _, _, _, hlt => absurd hlt (Nat.not_lt_zero _)
  | fuel + 1, xs, [], _, _ => by simp [ListenerRegistry.find, queueAt]
  | fuel + 1, xs, n :: ys, hns, hlt => by
    obtain ⟨hempty, hnext⟩ := hH.walk hh hns
    obtain ⟨cb', hcb⟩ := hH.allocated (n := n) (e := e) (by simp [hns])
    have ih := hH.find hh cb fuel (xs ++ [n]) ys (by simp [hns]) (Nat.lt_of_succ_lt_succ hlt)
    rw [queueAt]
    by_cases hfound : cb' = cb
    · simp [ListenerRegistry.find, hempty, listenerAt, hcb, hfound]
    · simp [ListenerRegistry.find, hempty, listenerAt, hcb, hfound, hnext, ih]

/-- No listener of the event has the callback. -/
theorem not_mem_of_find (hH : reg.Holds lists heads ns) {cb : γ}
    (hfound : (ns e).find? (fun n => decide (reg.listeners n = some cb)) = none) : cb ∉ lists e := by
  intro hmem
  have hlisted := List.mem_map_of_mem (f := some) hmem
  rw [← hH.listed] at hlisted
  obtain ⟨n, hn, hcb⟩ := List.mem_map.mp hlisted
  exact absurd (List.find?_eq_none.mp hfound n hn) (by simp [hcb])

/-- The listener that is found carries the first occurrence of the callback. -/
theorem erase_of_find (hH : reg.Holds lists heads ns) {cb : γ} {n : ℕ}
    (hfound : (ns e).find? (fun n => decide (reg.listeners n = some cb)) = some n) :
    ∃ xs ys, ns e = xs ++ n :: ys ∧
      (xs ++ ys).map reg.listeners = ((lists e).erase cb).map some := by
  obtain ⟨hn, xs, ys, hns, hbefore⟩ := List.find?_eq_some_iff_append.mp hfound
  refine ⟨xs, ys, hns, ?_⟩
  have hcb : reg.listeners n = some cb := of_decide_eq_true hn
  have hlisted := hH.listed e
  rw [hns, List.map_append, List.map_cons, hcb] at hlisted
  obtain ⟨front, rest, hlists, hfront, hrest⟩ := List.map_eq_append_iff.mp hlisted.symm
  obtain ⟨cb', back, rfl, hcb', hback⟩ := List.map_eq_cons_iff.mp hrest
  obtain rfl := Option.some.inj hcb'
  have hnot : cb' ∉ front := by
    intro hmem
    have hmem' := List.mem_map_of_mem (f := some) hmem
    rw [hfront] at hmem'
    obtain ⟨m, hm, hcbm⟩ := List.mem_map.mp hmem'
    exact absurd (hbefore m hm) (by simp [hcbm])
  rw [hlists, List.erase_append_right _ hnot, List.erase_cons_head, List.map_append, List.map_append,
    hfront, hback]

end Holds

/-! ## The calls -/

/-- The registry holds the lists, and no event has an empty queue. -/
def Represents (reg : ListenerRegistry γ) (lists : CString → List γ) : Prop :=
  ∃ heads ns, reg.Holds lists heads ns ∧ ∀ e h, heads e = some h → ns e ≠ []

variable {reg : ListenerRegistry γ} {lists : CString → List γ}

/-- **`pc_add_listener`** appends to the list of its event. -/
theorem Represents.addListener (hR : reg.Represents lists) (e : CString) (cb : γ) :
    ∃ reg', reg.addListener e cb = some (0, reg') ∧
      reg'.Represents (Function.update lists e (lists e ++ [cb])) := by
  obtain ⟨heads, ns, hH, hbusy⟩ := hR
  have hH₁ := hH.newListener cb
  have hnew : (reg.newListener cb).listeners reg.listenersMade = some cb := Function.update_self ..
  have hfresh : ∀ e', reg.listenersMade ∉ ns e' := hH.not_mem_of_fresh (Nat.le_refl _)
  have hbusy' : ∀ {heads' : CString → Option ℕ}, (∀ e', e' ≠ e → heads' e' = heads e') →
      ∀ e' h', heads' e' = some h' →
        Function.update ns e (ns e ++ [reg.listenersMade]) e' ≠ [] := by
    intro heads' hsame e' h' hh'
    rcases eq_or_ne e' e with rfl | hne
    · rw [Function.update_self]
      exact List.append_ne_nil_of_right_ne_nil _ (List.cons_ne_nil _ _)
    · rw [Function.update_of_ne hne]
      exact hbusy e' h' ((hsame e' hne).symm.trans hh')
  rw [ListenerRegistry.addListener, hH.opened, if_neg Bool.false_ne_true]
  cases he : heads e with
  | some h =>
    refine ⟨(reg.newListener cb).insertTail h reg.listenersMade, ?_, _, _,
      hH₁.insertTail he hnew hfresh, hbusy' fun _ _ => rfl⟩
    simp [hH₁.queue e, he]
  | none =>
    obtain ⟨map, hset, hH₂⟩ := hH₁.newHead he
    have hh : Function.update heads e (some (reg.newListener cb).headsMade) e =
        some (reg.newListener cb).headsMade := Function.update_self ..
    refine ⟨_, ?_, _, _, hH₂.insertTail hh hnew hfresh,
      hbusy' fun e' hne => Function.update_of_ne hne _ _⟩
    simp [hH₁.queue e, he, hset]

/-- **`pc_remove_listener`** takes the first occurrence out of the list of its event. -/
theorem Represents.removeListener [DecidableEq γ] (hR : reg.Represents lists) (e : CString)
    (cb : γ) :
    ∃ reg', reg.removeListener e cb = some reg' ∧
      reg'.Represents (Function.update lists e ((lists e).erase cb)) := by
  obtain ⟨heads, ns, hH, hbusy⟩ := hR
  rw [ListenerRegistry.removeListener, hH.queue e]
  cases he : heads e with
  | none =>
    -- the event has no listeners
    have hlisted := hH.listed e
    rw [hH.bare e he] at hlisted
    have hnil : lists e = [] := by simpa using hlisted.symm
    refine ⟨reg, rfl, heads, ns, ?_, hbusy⟩
    rwa [hnil, List.erase_nil, ← hnil, Function.update_eq_self]
  | some h =>
    have hfind := hH.find he cb (reg.listenersMade + 1) [] (ns e) rfl
      (Nat.lt_succ_of_le (hH.length_le he))
    rw [← hH.walk_start he] at hfind
    cases hfound : (ns e).find? (fun n => decide (reg.listeners n = some cb)) with
    | none =>
      have hfull : reg.links.empty (.head h) = false := by
        rw [Bool.eq_false_iff]
        exact fun hempty => hbusy e h he ((hH.empty_iff he).mp hempty)
      refine ⟨reg, ?_, heads, ns, ?_, hbusy⟩
      · simp [hfind, hfound, ListenerRegistry.removeFound, hfull]
      · rwa [List.erase_of_not_mem (hH.not_mem_of_find hfound), Function.update_eq_self]
    | some n =>
      obtain ⟨xs, ys, hns, hcbs⟩ := hH.erase_of_find hfound
      have hH' := hH.removeFound he hns hcbs
      have hleft : Function.update ns e (xs ++ ys) e = xs ++ ys := Function.update_self ..
      by_cases hlast : xs ++ ys = []
      · -- it was the last listener of the event
        have hempty := (hH'.empty_iff he).mpr (hleft.trans hlast)
        obtain ⟨map, hdel, hH''⟩ := hH'.dropHead he (hleft.trans hlast)
        refine ⟨_, ?_, _, _, hH'', fun e' h' hh' => ?_⟩
        · simp [hfind, hfound, hempty, hdel]
        · have hne : e' ≠ e := by
            rintro rfl
            rw [Function.update_self] at hh'
            exact absurd hh' (by simp)
          rw [Function.update_of_ne hne] at hh' ⊢
          exact hbusy e' h' hh'
      · have hfull : (reg.removeFound (some n)).links.empty (.head h) = false := by
          rw [Bool.eq_false_iff]
          exact fun hempty => hlast (hleft.symm.trans ((hH'.empty_iff he).mp hempty))
        refine ⟨reg.removeFound (some n), ?_, heads, _, hH', fun e' h' hh' => ?_⟩
        · simp [hfind, hfound, hfull]
        · rcases eq_or_ne e' e with rfl | hne
          · rw [hleft]
            exact hlast
          · rw [Function.update_of_ne hne]
            exact hbusy e' h' hh'

/-! ## Whole runs -/

variable [DecidableEq γ]

theorem Represents.call (hR : reg.Represents lists) (c : ListenerCall γ) :
    ∃ reg', reg.call c = some (0, reg') ∧ reg'.Represents (c.after lists) := by
  cases c with
  | add e cb => exact hR.addListener e cb
  | remove e cb =>
    obtain ⟨reg', hremove, hR'⟩ := hR.removeListener e cb
    exact ⟨reg', by rw [ListenerRegistry.call, hremove]; rfl, hR'⟩

theorem Represents.calls (cs : List (ListenerCall γ)) :
    ∀ {reg : ListenerRegistry γ} {lists : CString → List γ}, reg.Represents lists →
      ∃ reg', reg.calls cs = some (cs.map fun _ => 0, reg') ∧
        reg'.Represents (cs.foldl ListenerCall.after lists) := by
  induction cs with
  | nil => exact fun {reg _} hR => ⟨reg, rfl, hR⟩
  | cons c cs ih =>
    intro reg lists hR
    obtain ⟨reg₁, hcall, hR₁⟩ := hR.call c
    obtain ⟨reg₂, hcalls, hR₂⟩ := ih hR₁
    refine ⟨reg₂, ?_, hR₂⟩
    simp [ListenerRegistry.calls, hcall, hcalls]

omit [DecidableEq γ] in
/-- A client starts without listeners. -/
theorem represents_init (mapLinks : Pointers MapNode) (links : Pointers ListenerNode) :
    ∃ reg : ListenerRegistry γ, ListenerRegistry.init mapLinks links = some reg ∧
      reg.Represents fun _ => [] := by
  obtain ⟨map, hmap⟩ : ∃ map : PcMap ℕ, mapInit 256 mapLinks = some map := by
    rw [mapInit]
    exact ⟨_, if_neg (by decide)⟩
  refine ⟨_, congrArg (Option.map _) hmap, fun _ => none, fun _ => [], ?_,
    fun _ _ hh => absurd hh (by simp)⟩
  exact ⟨rfl, stores_init hmap, fun _ _ => rfl, fun _ _ hh => absurd hh (by simp),
    fun _ _ hh => absurd hh (by simp), fun _ => rfl, fun _ _ => rfl, fun _ _ => rfl,
    fun _ _ _ hh => absurd hh (by simp), fun _ _ _ hn => absurd hn List.not_mem_nil⟩

/-- **The registry serves the lists.** -/
structure Serves (reg : ListenerRegistry γ) (lists : CString → List γ) : Prop where
  /-- `pc_emit_event` invokes the callbacks of the event, each once and in order -/
  emits : ∀ e, reg.emitEvent e = some (lists e)
  /-- the map names a head exactly for the events with listeners, and its queue is not empty -/
  named : ∀ e, ∃ head, reg.map.get (reg.map.made + 1) e = some head ∧
    (head = none ↔ lists e = []) ∧
    ∀ h, head = some h → reg.heads h = true ∧ reg.links.empty (.head h) = false

omit [DecidableEq γ] in
theorem Represents.serves (hR : reg.Represents lists) : reg.Serves lists := by
  obtain ⟨heads, ns, hH, hbusy⟩ := hR
  refine ⟨hH.emitEvent, fun e => ⟨heads e, hH.map.get e, ?_, fun h hh => ⟨hH.live e h hh, ?_⟩⟩⟩
  · have hlen : (ns e).length = (lists e).length := by
      rw [← List.length_map (f := reg.listeners), hH.listed, List.length_map]
    cases he : heads e with
    | none =>
      rw [hH.bare e he] at hlen
      exact iff_of_true rfl (List.eq_nil_of_length_eq_zero hlen.symm)
    | some h =>
      refine iff_of_false (by simp) fun hnil => hbusy e h he ?_
      rw [hnil] at hlen
      exact List.eq_nil_of_length_eq_zero hlen
  · rw [Bool.eq_false_iff]
    exact fun hempty => hbusy e h hh ((hH.empty_iff hh).mp hempty)

end ListenerRegistry

/-- **The registry is a map from event names to lists of callbacks.** On a client just made, any
sequence of `pc_add_listener` and `pc_remove_listener` returns, every add with 0, and the
registry serves the lists that the sequence leaves. -/
theorem listeners_refine [DecidableEq γ] (mapLinks : Pointers MapNode)
    (links : Pointers ListenerNode) (cs : List (ListenerCall γ)) :
    ∃ reg₀ reg : ListenerRegistry γ, ListenerRegistry.init mapLinks links = some reg₀ ∧
      reg₀.calls cs = some (cs.map fun _ => 0, reg) ∧ reg.Serves (registered cs) := by
  obtain ⟨reg₀, hinit, hR⟩ := ListenerRegistry.represents_init (γ := γ) mapLinks links
  obtain ⟨reg, hcalls, hR'⟩ := hR.calls cs
  exact ⟨reg₀, reg, hinit, hcalls, hR'.serves⟩

/-- Two event names of one bucket: a callback registered twice is taken out once, from the front,
and an event without callbacks is gone. -/
example : ((ListenerRegistry.init ⟨id, id⟩ ⟨id, id⟩ : Option (ListenerRegistry ℕ)).bind fun reg =>
    (reg.calls [.add keyAB 1, .add keyBA 7, .add keyAB 2, .add keyAB 1, .remove keyAB 1,
      .remove keyBA 7]).bind fun r =>
    (r.2.emitEvent keyAB).bind fun cbs => (r.2.queue keyBA).map fun head => (cbs, head)) =
    some ([2, 1], none) := by
  decide +kernel

end Libpomelo
