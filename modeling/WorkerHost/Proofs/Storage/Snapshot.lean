import WorkerHost.Proofs.Storage.Refinement
import WorkerHost.Proofs.Value.Sharing
import WorkerHost.Proofs.Wire.Acceptance

/-!
# Stored values are snapshots

The values that a user sets and gets are made of objects that can be edited, and one heap has all of
them. A `Store.World` is this heap with a store and its database, and a run goes on through actions
of the user: objects are made and edited, and the store is used. No edit gets into the store, and
what comes out of it shares no object with anything that the user had.

* `Store.adds_of_get`: the value of a key is made of new objects;
* `Store.World.tracks_runs`: the store still stands for the graphs that were set, as they were then;
* `Store.World.staysApart`: values that share no object share none through all actions, if no edit
  puts something of the one into the other;
* `Store.Opened.stored_values_are_snapshots`: both, for every run.
-/

namespace WorkerHost

/-! ## What comes out of a store -/

namespace Wire
variable {h h' : Heap} {w : Wire} {v : Value}

/-- What is decoded is made of new objects. -/
lemma adds_of_decode (hdecode : decode h w = .ok (v, h')) : h.Adds v h' := by
  have hkept (r : ℕ) (hr : r < h.size) := read_of_decode hdecode hr
  have hclosed := closed_of_decode hdecode
  rw [decode_eq hclosed] at hdecode
  cases hdecode
  have hsize := size_extend h w
  have hslot {s : Slot} (hs : s.Below w.objects.length) :
      (extend h w).Allocated (s.toValue h.size) := by
    intro r hr
    obtain ⟨id, hid, rfl⟩ := toValue_eq_object_iff.1 hr
    rw [hsize]
    exact Nat.add_lt_add_left (hs id hid) _
  refine ⟨⟨by omega, hkept⟩, fun hh r u hu => ?_, hslot hclosed.root,
    fun r hr => (objectsFrom_extend_subset h w hr).1⟩
  by_cases hr : r < h.size
  · rw [hkept r hr] at hu
    exact (hh r u hu).mono (by omega)
  · obtain ⟨i, rfl⟩ := Nat.exists_eq_add_of_le (Nat.le_of_not_lt hr)
    by_cases hi : i < w.objects.length
    · rw [read_extend (List.getElem?_eq_getElem hi)] at hu
      obtain ⟨s, hs, rfl⟩ := exists_slot_of_mem_children hu
      exact hslot (hclosed.slots _ (List.getElem_mem hi) s hs)
    · rw [Heap.read_of_size_le (by omega)] at hu
      cases hu

end Wire

/-- A value without objects needs none. -/
lemma Heap.adds_of_ne_object (h : Heap) {v : Value} (hv : ∀ r, v ≠ .object r) : h.Adds v h := by
  refine ⟨.refl h, id, fun r hr => absurd hr (hv r), fun r hr => ?_⟩
  rw [Heap.objectsFrom_eq_empty hv] at hr
  exact hr.elim

lemma StoredValue.adds_of_toValue {s : StoredValue} {h h' : Heap} {v : Value}
    (hs : s.toValue h = .ok (v, h')) : h.Adds v h' := by
  cases s with
  | generic wire => exact Wire.adds_of_decode hs
  | null | bytearray bs | memoryview bs =>
    cases hs
    exact h.adds_of_ne_object (by simp)

namespace Store

/-- The value of a key is made of new objects. -/
lemma adds_of_get {s : Store} {h h' : Heap} {k : String} {v : Value}
    (hget : s.get h k = .ok (some v, h')) : h.Adds v h' := by
  cases hk : s.cache.get? k with
  | none =>
    rw [get_of_none hk] at hget
    cases hget
  | some record =>
    rw [get_of_some hk, answerOf] at hget
    cases hvalue : record.toValue h with
    | error e =>
      rw [hvalue] at hget
      cases hget
    | ok p =>
      rw [hvalue] at hget
      cases hget
      exact StoredValue.adds_of_toValue hvalue

/-- A key without a value leaves the heap as it is. -/
lemma eq_of_get_none {s : Store} {h h' : Heap} {k : String} (hget : s.get h k = .ok (none, h')) :
    h' = h := by
  cases hk : s.cache.get? k with
  | none =>
    rw [get_of_none hk] at hget
    cases hget
    rfl
  | some record =>
    rw [get_of_some hk, answerOf] at hget
    cases hvalue : record.toValue h <;> rw [hvalue] at hget <;> cases hget

/-- Getting a value leaves the objects that there are as they are. -/
lemma grows_of_get {s : Store} {h h' : Heap} {k : String} {o : Option Value}
    (hget : s.get h k = .ok (o, h')) : h.Grows h' ∧ (h.Closed → h'.Closed) := by
  cases o with
  | none =>
    obtain rfl := eq_of_get_none hget
    exact ⟨.refl h', id⟩
  | some v => exact ⟨(adds_of_get hget).toGrows, (adds_of_get hget).closed⟩

/-! ## Worlds -/

/-- A store with its database, and the heap with the values of the user. -/
structure World where
  heap : Heap
  store : Store
  database : Database

/-- What the user does. -/
inductive Action where
  | make (o : Object)
  | edit (target : Value) (kind : Edit.Kind) (v : Value)
  | set (key : String) (v : Value)
  | get (key : String)
  | delete (key : String)
  | clear
  | sync (health : Health)

/-- What an action asks of the store. A value is handed over with the heap as it is then. -/
def Action.operation? (h : Heap) : Action → Option Operation
  | .make _ | .edit _ _ _ => none
  | .set key v => some (.set h key v)
  | .get key => some (.get h key)
  | .delete key => some (.delete key)
  | .clear => some .clear
  | .sync health => some (.sync health)

namespace World

/-- The heap after an action. -/
def heapAfter (w : World) : Action → Heap
  | .make o => (w.heap.alloc o).2
  | .edit target kind v => w.heap.edit target (kind.edit v)
  | .get key =>
    match w.store.get w.heap key with
    | .ok (_, h) => h
    | .error _ => w.heap
  | .set _ _ | .delete _ | .clear | .sync _ => w.heap

/-- The world after an action. -/
def run (w : World) (a : Action) : World :=
  let p := (a.operation? w.heap).elim (w.store, w.database) (Operation.run (w.store, w.database))
  ⟨w.heapAfter a, p.1, p.2⟩

/-- The world after some actions. -/
def runs (w : World) (actions : List Action) : World :=
  actions.foldl run w

/-- What the keys stand for after some actions: each for the last value that was set under it, as it
was when it was set. -/
def contents (w : World) (m : Dict Content) : List Action → Dict Content
  | [] => m
  | a :: rest => (w.run a).contents ((a.operation? w.heap).elim m (Operation.expect m)) rest

/-- The values that an action passes to the store or gets from it. -/
def handles (w : World) : Action → List Value
  | .set _ v => [v]
  | .get key =>
    match w.store.get w.heap key with
    | .ok (some v, _) => [v]
    | _ => []
  | _ => []

/-- The values that some actions pass to the store or get from it. -/
def handled (w : World) : List Action → List Value
  | [] => []
  | a :: rest => w.handles a ++ (w.run a).handled rest

/-- Something is true of every action in the world in which it happens. -/
def Throughout (P : World → Action → Prop) (w : World) : List Action → Prop
  | [] => True
  | a :: rest => P w a ∧ (w.run a).Throughout P rest

/-- The values of the action are in the heap, and what it sets can be stored. -/
def Admits (w : World) : Action → Prop
  | .make o => ∀ v ∈ o.children, w.heap.Allocated v
  | .edit _ _ v => w.heap.Allocated v
  | .set key v => w.heap.Allocated v ∧ (Operation.set w.heap key v).Storable
  | _ => True

/-- The action puts nothing into one of the two values that shares an object with the other. -/
def KeepsApart (u v : Value) (w : World) : Action → Prop
  | .edit target _ x => w.heap.KeepsApart u v target x
  | _ => True

/-- The two values share no object, and actions that keep them apart do not change that. -/
def StaysApart (w : World) (u v : Value) : Prop :=
  ∀ later, w.Throughout Admits later → w.Throughout (KeepsApart u v) later →
    ¬ (w.runs later).heap.Shares u v

variable {w : World} {a : Action} {actions : List Action} {m : Dict Content} {u v : Value}

/-! ## One action -/

lemma grows_run_get (w : World) (key : String) : w.heap.Grows (w.run (.get key)).heap ∧
    (w.heap.Closed → (w.run (.get key)).heap.Closed) := by
  simp only [run, heapAfter]
  split
  · next o h hget => exact grows_of_get hget
  · exact ⟨.refl w.heap, id⟩

lemma size_le_run (w : World) (a : Action) : w.heap.size ≤ (w.run a).heap.size := by
  cases a with
  | make o => exact (w.heap.grows_alloc o).size_le
  | edit target kind v => exact (Heap.size_edit _ _ _).ge
  | get key => exact (w.grows_run_get key).1.size_le
  | _ => exact le_rfl

lemma closed_run (hw : w.heap.Closed) (ha : w.Admits a) : (w.run a).heap.Closed := by
  cases a with
  | make o => exact hw.alloc ha
  | edit target kind v => exact hw.edit ha
  | get key => exact (w.grows_run_get key).2 hw
  | _ => exact hw

/-- What the store stands for follows what is asked of it. -/
lemma tracks_run (hw : Tracks m w.store w.database) (ha : w.Admits a) :
    Tracks ((a.operation? w.heap).elim m (Operation.expect m)) (w.run a).store
      (w.run a).database := by
  have hstorable (op : Operation) (hop : a.operation? w.heap = some op) : op.Storable := by
    cases a <;> cases hop
    case set key v => exact ha.2
    all_goals trivial
  simp only [run]
  cases hop : a.operation? w.heap with
  | none => exact hw
  | some op => exact hw.run (hstorable op hop)

lemma allocated_of_mem_handles (ha : w.Admits a) (hu : u ∈ w.handles a) :
    (w.run a).heap.Allocated u := by
  cases a with
  | set key v =>
    cases List.mem_singleton.1 hu
    exact ha.1
  | get key =>
    simp only [handles] at hu
    simp only [run, heapAfter]
    split at hu
    · next v h hget =>
      cases List.mem_singleton.1 hu
      rw [hget]
      exact (adds_of_get hget).allocated
    · cases hu
  | _ => cases hu

/-- Values that share no object share none after an action that keeps them apart. -/
lemma not_shares_run (hw : w.heap.Closed) (hu : w.heap.Allocated u) (hv : w.heap.Allocated v)
    (hapart : ¬ w.heap.Shares u v) (ha : KeepsApart u v w a) : ¬ (w.run a).heap.Shares u v := by
  cases a with
  | make o => exact mt ((w.heap.grows_alloc o).shares_iff hw hu hv).1 hapart
  | edit target kind x => exact Heap.not_shares_edit hapart ha
  | get key => exact mt ((w.grows_run_get key).1.shares_iff hw hu hv).1 hapart
  | _ => exact hapart

/-! ## Runs -/

lemma closed_runs (hw : w.heap.Closed) (ha : w.Throughout Admits actions) :
    (w.runs actions).heap.Closed := by
  induction actions generalizing w with
  | nil => exact hw
  | cons a rest ih => exact ih (closed_run hw ha.1) ha.2

lemma size_le_runs (w : World) (actions : List Action) :
    w.heap.size ≤ (w.runs actions).heap.size := by
  induction actions generalizing w with
  | nil => exact le_rfl
  | cons a rest ih => exact (w.size_le_run a).trans (ih (w.run a))

lemma tracks_runs (hw : Tracks m w.store w.database) (ha : w.Throughout Admits actions) :
    Tracks (w.contents m actions) (w.runs actions).store (w.runs actions).database := by
  induction actions generalizing w m with
  | nil => exact hw
  | cons a rest ih => exact ih (tracks_run hw ha.1) ha.2

/-- What is passed to the store or got from it is in the heap and stays there. -/
lemma allocated_of_mem_handled (ha : w.Throughout Admits actions) (hu : u ∈ w.handled actions) :
    (w.runs actions).heap.Allocated u := by
  induction actions generalizing w with
  | nil => cases hu
  | cons a rest ih =>
    rcases List.mem_append.1 hu with hu | hu
    · exact (allocated_of_mem_handles ha.1 hu).mono ((w.run a).size_le_runs rest)
    · exact ih ha.2 hu

/-- Values that share no object stay apart. -/
lemma staysApart (hw : w.heap.Closed) (hu : w.heap.Allocated u) (hv : w.heap.Allocated v)
    (hapart : ¬ w.heap.Shares u v) : w.StaysApart u v := by
  intro later hadmits hkeep
  induction later generalizing w with
  | nil => exact hapart
  | cons a rest ih =>
    have hle := w.size_le_run a
    exact ih (closed_run hw hadmits.1) (hu.mono hle) (hv.mono hle)
      (not_shares_run hw hu hv hapart hkeep.1) hadmits.2 hkeep.2

end World

/-- Whatever the user does with a store and with the values that go into it and come out of it, what
is got under a key is the graph that was last set under it, as it was then. Getting it changes no
object of the heap, and it shares none with any value there, the ones that were passed to the store
or got from it among them: not when it is got, and not later, unless an edit puts something of the
one into the other. -/
theorem Opened.stored_values_are_snapshots {w₀ : World} (hopened : Opened w₀.store w₀.database)
    (hclosed : w₀.heap.Closed) (actions : List Action)
    (hactions : w₀.Throughout World.Admits actions) :
    (∀ k, Answers (w₀.runs actions).heap ((w₀.runs actions).store.get (w₀.runs actions).heap k)
      ((w₀.contents (w₀.store.cache.map .found) actions).get? k)) ∧
    (∀ u ∈ w₀.handled actions, (w₀.runs actions).heap.Allocated u) ∧
    ∀ k v h, (w₀.runs actions).store.get (w₀.runs actions).heap k = .ok (some v, h) →
      (∀ r < (w₀.runs actions).heap.size, h.read r = (w₀.runs actions).heap.read r) ∧
      ∀ u, (w₀.runs actions).heap.Allocated u →
        ((w₀.runs actions).run (.get k)).StaysApart u v := by
  have hclosed' := World.closed_runs hclosed hactions
  refine ⟨fun k => (World.tracks_runs hopened.tracks hactions).answers _ k,
    fun u hu => World.allocated_of_mem_handled hactions hu, fun k v h hget => ?_⟩
  have hadds := adds_of_get hget
  have hheap : ((w₀.runs actions).run (.get k)).heap = h := by
    simp only [World.run, World.heapAfter, hget]
  refine ⟨hadds.read_eq, fun u hu => World.staysApart ?_ ?_ ?_ ?_⟩ <;> rw [hheap]
  · exact hadds.closed hclosed'
  · exact hu.mono hadds.size_le
  · exact hadds.allocated
  · exact hadds.not_shares hclosed' hu

/-- A new store, and the heap of `Wire.sharedLoop`. -/
def World.loop : World :=
  ⟨Wire.sharedLoop, ⟨"app", [], .empty, []⟩, Database.empty.commit "app" []⟩

/-- The loop is set, edited, brought to the disk, got and edited again, and so is what was got. -/
def loopActions : List Action :=
  [.set "loop" (.object 0), .edit (.object 1) (.set "n") (.int 4), .sync .good, .get "loop",
    .edit (.object 1) .link .null, .edit (.object 2) .push .null]

lemma closed_sharedLoop : Wire.sharedLoop.Closed := by
  intro r v hv s hs
  subst hs
  obtain ⟨hlist, hmap⟩ := Wire.children_sharedLoop
  match r with
  | 0 =>
    rw [hlist] at hv
    have heq : s = 1 := by simpa using hv
    rw [heq]
    decide
  | 1 =>
    rw [hmap] at hv
    have heq : s = 0 := by simpa using hv
    rw [heq]
    decide
  | r + 2 => cases hv

lemma admits_loopActions : World.loop.Throughout World.Admits loopActions := by
  have hset : World.loop.Admits (.set "loop" (.object 0)) :=
    ⟨fun r hr => by cases hr; decide, storable_of_mem_failedSyncs _ List.mem_cons_self⟩
  have hscalar {h : Heap} {v : Value} (hv : ∀ r, v ≠ .object r) : h.Allocated v :=
    fun r hr => absurd hr (hv r)
  exact ⟨hset, hscalar (by simp), trivial, trivial, hscalar (by simp), hscalar (by simp), trivial⟩

theorem Opened.stored_values_are_snapshots_loopActions :
    Opened World.loop.store World.loop.database ∧ World.loop.heap.Closed ∧
      World.loop.Throughout World.Admits loopActions ∧
      ∃ v h, (World.loop.runs loopActions).store.get (World.loop.runs loopActions).heap "loop" =
          .ok (some v, h) ∧
        Restores Wire.sharedLoop (.object 0) h v ∧
        ((World.loop.runs loopActions).run (.get "loop")).StaysApart (.object 0) v := by
  have hopened : Opened World.loop.store World.loop.database :=
    ⟨rfl, Database.load_eq_ok_iff.2 .nil⟩
  obtain ⟨hanswers, hallocated, hapart⟩ :=
    hopened.stored_values_are_snapshots closed_sharedLoop loopActions admits_loopActions
  have hcontents : (World.loop.contents (World.loop.store.cache.map .found) loopActions).get?
      "loop" = some (.graph Wire.sharedLoop (.object 0)) := by
    have hrecord := StoredValue.ofValue_eq_ok_iff.2
      (.generic (Wire.encode_eq Wire.functionFree_sharedLoop) ⟨by simp, by simp⟩)
    -- only the first action sets a key
    show ((Operation.set Wire.sharedLoop "loop" (.object 0)).expect _).get? "loop" = _
    simp only [Operation.expect, hrecord, Dict.get?_insert_self]
  have hanswer := hanswers "loop"
  rw [hcontents] at hanswer
  obtain ⟨v, h, hget, hrestores⟩ := hanswer
  have hroot := hallocated (.object 0) List.mem_cons_self
  exact ⟨hopened, closed_sharedLoop, admits_loopActions, v, h, hget, hrestores,
    (hapart "loop" v h hget).2 (.object 0) hroot⟩

end Store
end WorkerHost
