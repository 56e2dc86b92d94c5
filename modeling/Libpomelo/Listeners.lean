import Libpomelo.Map

/-!
# The event listeners (`client.c`, `listener.c`)

A client keeps its listeners in two levels of intrusive lists: a map from event names to
queue heads, whose buckets are lists of pairs, and behind every head the list of the
listeners of the event. A head is allocated with the first listener of an event and freed
with the last one.

The model has one pointer graph for the queue nodes of the heads and of the listeners, and a
memory that says which of them are allocated. A walk that reads a freed listener, or a head
as if it were one, and a use of a freed head have no result. The loops run with one round
more than nodes were made. Allocation succeeds, and a callback leaves the registry alone.
-/

namespace Libpomelo

/-- The queue nodes: a head of `pc_add_listener`, or the node inside a listener. -/
inductive ListenerNode : Type where
  | head (n : ℕ)
  | listener (n : ℕ)
  deriving DecidableEq

/-- What `pc_client_t` and its memory hold of the listeners. Heads and listeners are numbered in
the order in which they are allocated. -/
structure ListenerRegistry (γ : Type) where
  /-- `state` is `PC_ST_CLOSED` -/
  closed : Bool
  /-- `listeners`; a value is the number of a head -/
  map : PcMap ℕ
  /-- the pointers of all queue nodes -/
  links : Pointers ListenerNode
  /-- the allocated heads -/
  heads : ℕ → Bool
  /-- the number of heads allocated so far -/
  headsMade : ℕ
  /-- the allocated listeners, each with its `cb` -/
  listeners : ℕ → Option γ
  /-- the number of listeners allocated so far -/
  listenersMade : ℕ

namespace ListenerRegistry

variable {γ : Type}

/-- The listeners of `pc__client_init`, in memory with any content. -/
def init (mapLinks : Pointers MapNode) (links : Pointers ListenerNode) :
    Option (ListenerRegistry γ) :=
  (mapInit 256 mapLinks).map fun map =>
    { closed := false
      map := map
      links := links
      heads := fun _ => false
      headsMade := 0
      listeners := fun _ => none
      listenersMade := 0 }

/-- `ngx_queue_data` and the read through it: the listener around a node, if it is one and still
allocated. -/
def listenerAt (reg : ListenerRegistry γ) : ListenerNode → Option (ℕ × γ)
  | .head _ => none
  | .listener n => (reg.listeners n).map fun cb => (n, cb)

/-- `pc_map_get`, for a head that is going to be used. The inner `none` is `NULL`. -/
def queue (reg : ListenerRegistry γ) (event : CString) : Option (Option ℕ) := do
  match ← reg.map.get (reg.map.made + 1) event with
  | none => some none
  | some h => if reg.heads h then some (some h) else none

/-- `pc_listener_new`, and the assignment of its `cb`. -/
def newListener (reg : ListenerRegistry γ) (cb : γ) : ListenerRegistry γ :=
  { reg with
    links := reg.links.init (.listener reg.listenersMade)
    listeners := Function.update reg.listeners reg.listenersMade (some cb)
    listenersMade := reg.listenersMade + 1 }

/-- `pc_listener_destroy`. -/
def destroyListener (reg : ListenerRegistry γ) (n : ℕ) : ListenerRegistry γ :=
  { reg with
    links := reg.links.remove (.listener n)
    listeners := Function.update reg.listeners n none }

/-- The head that `pc_add_listener` allocates for the first listener of an event. -/
def newHead (reg : ListenerRegistry γ) : ListenerRegistry γ :=
  { reg with
    links := reg.links.init (.head reg.headsMade)
    heads := Function.update reg.heads reg.headsMade true
    headsMade := reg.headsMade + 1 }

/-- `ngx_queue_insert_tail(head, &listener->queue)` -/
def insertTail (reg : ListenerRegistry γ) (h n : ℕ) : ListenerRegistry γ :=
  { reg with links := reg.links.insertTail (.head h) (.listener n) }

/-- `pc_add_listener`, with its return value. -/
def addListener (reg : ListenerRegistry γ) (event : CString) (cb : γ) :
    Option (ℤ × ListenerRegistry γ) :=
  if reg.closed then some (-1, reg)
  else do
    let n := reg.listenersMade
    let reg := reg.newListener cb
    match ← reg.queue event with
    | some h => some (0, reg.insertTail h n)
    | none =>
      let h := reg.headsMade
      let reg := reg.newHead
      let map ← reg.map.set (reg.map.made + 1) event (some h)
      some (0, { reg with map := map }.insertTail h n)

/-- The loop of `pc_emit_event`: the callbacks from the node `item` on. -/
def callbacks (reg : ListenerRegistry γ) (head : ListenerNode) :
    ℕ → ListenerNode → Option (List γ)
  | 0, _ => none
  | fuel + 1, item =>
    if item = head ∨ reg.links.empty head then some []
    else do
      let (_, cb) ← reg.listenerAt item
      let cbs ← reg.callbacks head fuel (reg.links.next item)
      some (cb :: cbs)

/-- `pc_emit_event`: the callbacks it invokes, in order. -/
def emitEvent (reg : ListenerRegistry γ) (event : CString) : Option (List γ) := do
  match ← reg.queue event with
  | none => some []
  | some h => reg.callbacks (.head h) (reg.listenersMade + 1) (reg.links.next (.head h))

section Remove

variable [DecidableEq γ]

/-- The loop of `pc_remove_listener`: the first listener with the callback from the node `item`
on. The inner `none` is the end of the list. -/
def find (reg : ListenerRegistry γ) (cb : γ) (head : ListenerNode) :
    ℕ → ListenerNode → Option (Option ℕ)
  | 0, _ => none
  | fuel + 1, item =>
    if item = head ∨ reg.links.empty head then some none
    else do
      let (n, cb') ← reg.listenerAt item
      if cb' = cb then some (some n) else reg.find cb head fuel (reg.links.next item)

/-- The body of the loop for the listener it stops at: the node is removed from its list here and
once more by `pc_listener_destroy`. -/
def removeFound (reg : ListenerRegistry γ) : Option ℕ → ListenerRegistry γ
  | none => reg
  | some n => { reg with links := reg.links.remove (.listener n) }.destroyListener n

/-- `pc_remove_listener`. -/
def removeListener (reg : ListenerRegistry γ) (event : CString) (cb : γ) :
    Option (ListenerRegistry γ) := do
  match ← reg.queue event with
  | none => some reg
  | some h =>
    let found ← reg.find cb (.head h) (reg.listenersMade + 1) (reg.links.next (.head h))
    let reg := reg.removeFound found
    if reg.links.empty (.head h) then
      let (map, _) ← reg.map.del (reg.map.made + 1) event
      some { reg with map := map, heads := Function.update reg.heads h false }
    else some reg

end Remove

end ListenerRegistry

/-! ## Calls -/

/-- A call that changes the registry. -/
inductive ListenerCall (γ : Type) : Type where
  /-- `pc_add_listener` -/
  | add (event : CString) (cb : γ)
  /-- `pc_remove_listener` -/
  | remove (event : CString) (cb : γ)

variable {γ : Type} [DecidableEq γ]

/-- One call, with its return value; `pc_remove_listener` has none and counts as 0. -/
def ListenerRegistry.call (reg : ListenerRegistry γ) :
    ListenerCall γ → Option (ℤ × ListenerRegistry γ)
  | .add event cb => reg.addListener event cb
  | .remove event cb => (reg.removeListener event cb).map fun reg => (0, reg)

/-- Call after call, collecting the return values. -/
def ListenerRegistry.calls : ListenerRegistry γ → List (ListenerCall γ) →
    Option (List ℤ × ListenerRegistry γ)
  | reg, [] => some ([], reg)
  | reg, c :: cs => do
    let (rc, reg) ← reg.call c
    let (rcs, reg) ← reg.calls cs
    some (rc :: rcs, reg)

/-! ## What the registry is for -/

/-- One call on a map from event names to lists of callbacks: an add appends, a remove takes the
first occurrence out. -/
def ListenerCall.after (lists : CString → List γ) : ListenerCall γ → CString → List γ
  | .add event cb => Function.update lists event (lists event ++ [cb])
  | .remove event cb => Function.update lists event ((lists event).erase cb)

/-- The lists after a sequence of calls. -/
def registered (cs : List (ListenerCall γ)) : CString → List γ :=
  cs.foldl ListenerCall.after fun _ => []

end Libpomelo
