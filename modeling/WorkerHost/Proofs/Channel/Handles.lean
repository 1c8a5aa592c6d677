import WorkerHost.Proofs.Channel.Peer

/-!
# Handles for life

A table gives handles out as they are counted up and never twice, `RefTable.History.kept`. So what a
handle names is what was exposed under it, until it is released, and nothing before that and after
it, `NamesForLife`.

Whatever else happens at the end of a worker leaves its table alone: its thread moves, its handlers
call and are called, the other side sends what it likes, the end is closed. So a call on a handle
runs what was exposed under it at any time of such a history, `WorkerSide.HandleRun.answers`.
-/

namespace WorkerHost

/-! ## Handles in a history -/

/-- What happens to the handles of an end. -/
inductive HandleEvent (K : Type) where
  | exposed (h : HandleId) (callable : K)
  /-- a handle is to be taken back, and whether it was live -/
  | released (h : HandleId) (live : Bool)

/-- The handles that come and go at an end, in their order. -/
abbrev HandleLog (K : Type) := List (HandleEvent K)

namespace HandleLog
variable {K : Type} {log : HandleLog K} {h h' : HandleId} {f g : K}

/-- The handles that were given out. -/
def exposed (log : HandleLog K) : List HandleId :=
  log.filterMap fun
    | .exposed h _ => some h
    | .released .. => none

/-- The callable was exposed under the handle, which has not been released since. -/
def Live (log : HandleLog K) (h : HandleId) (f : K) : Prop :=
  ∃ before after, log = before ++ .exposed h f :: after ∧ ∀ live, .released h live ∉ after

@[simp] lemma exposed_exposed (log : HandleLog K) (h : HandleId) (f : K) :
    exposed (log ++ [.exposed h f]) = exposed log ++ [h] := by
  simp [exposed, List.filterMap_append]

@[simp] lemma exposed_released (log : HandleLog K) (h : HandleId) (live : Bool) :
    exposed (log ++ [.released h live]) = exposed log := by
  simp [exposed, List.filterMap_append]

lemma not_live_nil : ¬ Live [] h f := by
  rintro ⟨before, after, heq, -⟩
  simp at heq

lemma Live.mem_exposed (hlive : Live log h f) : h ∈ exposed log := by
  obtain ⟨before, after, rfl, -⟩ := hlive
  exact List.mem_filterMap.2 ⟨.exposed h f, by simp, rfl⟩

lemma live_exposed : Live (log ++ [.exposed h' g]) h f ↔ Live log h f ∨ h' = h ∧ g = f := by
  constructor
  · rintro ⟨before, after, heq, hafter⟩
    obtain ⟨rest, rfl, rfl⟩ | ⟨skipped, rfl, hlast⟩ := append_eq_append_cons heq
    · exact .inl ⟨before, rest, rfl, fun live hmem => hafter live (by simp [hmem])⟩
    · cases skipped with
      | nil =>
        obtain ⟨hhead, -⟩ := List.cons.inj hlast
        cases hhead
        exact .inr ⟨rfl, rfl⟩
      | cons x xs => simp at hlast
  · rintro (⟨before, after, rfl, hafter⟩ | ⟨rfl, rfl⟩)
    · exact ⟨before, after ++ [.exposed h' g], by simp, fun live hmem => by
        simp [hafter live] at hmem⟩
    · exact ⟨log, [], rfl, by simp⟩

lemma live_released {live : Bool} :
    Live (log ++ [.released h' live]) h f ↔ Live log h f ∧ h' ≠ h := by
  constructor
  · rintro ⟨before, after, heq, hafter⟩
    obtain ⟨rest, rfl, rfl⟩ | ⟨skipped, rfl, hlast⟩ := append_eq_append_cons heq
    · refine ⟨⟨before, rest, rfl, fun live hmem => hafter live (by simp [hmem])⟩, ?_⟩
      rintro rfl
      exact hafter live (by simp)
    · cases skipped <;> simp at hlast
  · rintro ⟨⟨before, after, rfl, hafter⟩, hne⟩
    exact ⟨before, after ++ [.released h' live], by simp, fun live hmem => by
      simp [hafter live, hne.symm] at hmem⟩

end HandleLog

/-! ## Tables -/

namespace RefTable
variable {K L : Type} {t : RefTable K} {log : HandleLog K}

lemma get?_insert (t : RefTable K) (f : K) (h : HandleId) :
    (t.insert f).2.get? h = if ⟨t.next⟩ = h then some f else t.get? h := by
  simp only [get?, insert, Std.HashMap.getElem?_insert, beq_iff_eq]

lemma get?_erase (t : RefTable K) (h' h : HandleId) :
    (t.erase h').get? h = if h' = h then none else t.get? h := by
  simp only [get?, erase, Std.HashMap.getElem?_erase, beq_iff_eq]

/-- What a table has come to by giving out handles and taking them back. -/
inductive History : RefTable K → HandleLog K → Prop where
  | empty : History .empty []
  | insert {t : RefTable K} {log : HandleLog K} (before : History t log) (f : K) :
      History (t.insert f).2 (log ++ [.exposed (t.insert f).1 f])
  | erase {t : RefTable K} {log : HandleLog K} (before : History t log) (h : HandleId) :
      History (t.erase h) (log ++ [.released h (t.get? h).isSome])

/-- A table has what is live, and the handles that it has given out are behind it. -/
structure Kept (t : RefTable K) (log : HandleLog K) : Prop where
  numbered : Numbered (log.exposed.map fun h => ⟨h.id⟩)
  next : (⟨t.next⟩ : CallId) = callNumber log.exposed.length
  get : ∀ h f, t.get? h = some f ↔ log.Live h f
  gone : ∀ h, .released h true ∈ log → h ∈ log.exposed ∧ ∀ f, ¬ log.Live h f

/-- The next handle has not been given out yet. -/
lemma Kept.next_not_mem (h : t.Kept log) (hbound : log.exposed.length < 2 ^ 64) :
    ⟨t.next⟩ ∉ log.exposed := by
  intro hmem
  have hnew := h.numbered.next_not_mem (by rwa [List.length_map])
  rw [List.length_map, ← h.next] at hnew
  exact hnew (List.mem_map.2 ⟨_, hmem, rfl⟩)

lemma Kept.nodup (h : t.Kept log) (hbound : log.exposed.length < 2 ^ 64) : log.exposed.Nodup :=
  .of_map _ (h.numbered.nodup (by rw [List.length_map]; exact hbound.le))

lemma Kept.get_isSome (h : t.Kept log) (id : HandleId) :
    (t.get? id).isSome = true ↔ ∃ f, log.Live id f := by
  simp only [Option.isSome_iff_exists, h.get]

lemma Kept.insert (h : t.Kept log) (hbound : log.exposed.length < 2 ^ 64) (f : K) :
    (t.insert f).2.Kept (log ++ [.exposed (t.insert f).1 f]) where
  numbered := by
    rw [HandleLog.exposed_exposed, List.map_append]
    exact h.numbered.push (by rw [List.length_map]; exact h.next)
  next := by
    rw [HandleLog.exposed_exposed, List.length_append]
    exact callNumber_succ h.next
  get id g := by
    rw [get?_insert, HandleLog.live_exposed, ← h.get]
    have hnew := h.next_not_mem hbound
    by_cases hid : ⟨t.next⟩ = id
    · -- nothing is live under a handle before it is given out
      have hnone : t.get? id ≠ some g := fun hget =>
        hnew (hid ▸ HandleLog.Live.mem_exposed ((h.get id g).1 hget))
      rw [if_pos hid, Option.some.injEq]
      exact ⟨fun hf => .inr ⟨hid, hf⟩, fun hor => (hor.resolve_left hnone).2⟩
    · rw [if_neg hid]
      exact ⟨.inl, fun hor => hor.resolve_right fun heq => hid heq.1⟩
  gone id hmem := by
    obtain ⟨hexposed, hdead⟩ := h.gone id (by simpa using hmem)
    refine ⟨by simp [hexposed], fun g hlive => ?_⟩
    rcases HandleLog.live_exposed.1 hlive with hlive | ⟨rfl, -⟩
    · exact hdead g hlive
    · exact h.next_not_mem hbound hexposed

lemma Kept.erase (h : t.Kept log) (id : HandleId) :
    (t.erase id).Kept (log ++ [.released id (t.get? id).isSome]) where
  numbered := by
    rw [HandleLog.exposed_released]
    exact h.numbered
  next := by
    rw [HandleLog.exposed_released]
    exact h.next
  get id' g := by
    rw [get?_erase, HandleLog.live_released, ← h.get]
    by_cases hid : id = id'
    · simp [hid]
    · simp [hid]
  gone id' hmem := by
    rw [HandleLog.exposed_released]
    rcases List.mem_append.1 hmem with hmem | hmem
    · obtain ⟨hexposed, hdead⟩ := h.gone id' hmem
      exact ⟨hexposed, fun g hlive => hdead g (HandleLog.live_released.1 hlive).1⟩
    · -- what is live has been given out
      obtain ⟨rfl, hlive⟩ : id' = id ∧ true = (t.get? id).isSome := by simpa using hmem
      obtain ⟨g, hlive⟩ := (h.get_isSome id').1 hlive.symm
      exact ⟨hlive.mem_exposed, fun g hlive => (HandleLog.live_released.1 hlive).2 rfl⟩

/-- As long as the numbers suffice. -/
theorem History.kept (h : t.History log) (hbound : log.exposed.length < 2 ^ 64) : t.Kept log := by
  induction h with
  | empty =>
    refine ⟨rfl, rfl, fun id f => ?_, by simp⟩
    simp [get?, RefTable.empty, HandleLog.not_live_nil]
  | insert before f ih =>
    rw [HandleLog.exposed_exposed, List.length_append] at hbound
    have hless := Nat.lt_of_succ_lt hbound
    exact (ih hless).insert hless f
  | erase before id ih =>
    rw [HandleLog.exposed_released] at hbound
    exact (ih hbound).erase id

/-- What targets name, with methods from elsewhere. -/
def names (t : RefTable K) (methods : String → Option L) (callable : K → L) : Target → Option L
  | .method m => methods m
  | .handle h => (t.get? h).map callable

end RefTable

/-! ## Names -/

/-- After such a history of an end its handles name what was exposed under them for as long as they
are live, and no other time. `names` is what a target names there, as a `callable` if it is a
handle, and `expose` and `release` give what it names after them too. -/
structure NamesForLife {K L : Type} (log : HandleLog K) (names : Target → Option L)
    (callable : K → L) (expose : K → HandleId × (Target → Option L))
    (release : HandleId → Bool × (Target → Option L)) : Prop where
  live : ∀ {h f}, log.Live h f → names (.handle h) = some (callable f)
  /-- before it is given out and after it is taken back -/
  dead : ∀ {h}, (∀ f, ¬ log.Live h f) → names (.handle h) = none
  /-- a handle that was taken back is never live again -/
  gone : ∀ {h}, .released h true ∈ log → ∀ f, ¬ log.Live h f
  /-- a handle can be taken back exactly while it is live -/
  release_iff : ∀ h, (release h).1 = true ↔ ∃ f, log.Live h f
  /-- no handle was given out twice -/
  nodup : log.exposed.Nodup
  fresh : ∀ f, (expose f).1 ∉ log.exposed
  /-- other handles and all methods name what they did -/
  expose_other : ∀ f target, target ≠ .handle (expose f).1 → (expose f).2 target = names target
  release_other : ∀ h target, target ≠ .handle h → (release h).2 target = names target

lemma RefTable.Kept.namesForLife {K L : Type} {t : RefTable K} {log : HandleLog K} (h : t.Kept log)
    (hbound : log.exposed.length < 2 ^ 64) (methods : String → Option L) (callable : K → L) :
    NamesForLife log (t.names methods callable) callable
      (fun f => ((t.insert f).1, (t.insert f).2.names methods callable))
      (fun id => ((t.get? id).isSome, (t.erase id).names methods callable)) where
  live {id f} hlive := by rw [names, (h.get id f).2 hlive, Option.map_some]
  dead {id} hdead := by
    have hnone : t.get? id = none := Option.eq_none_iff_forall_ne_some.2 fun f hf =>
      hdead f ((h.get id f).1 hf)
    rw [names, hnone, Option.map_none]
  gone {id} hmem := (h.gone id hmem).2
  release_iff id := h.get_isSome id
  nodup := h.nodup hbound
  fresh _ := h.next_not_mem hbound
  expose_other f target hne := by
    cases target with
    | method m => rfl
    | handle id =>
      show ((t.insert f).2.get? id).map callable = (t.get? id).map callable
      rw [get?_insert, if_neg fun heq => hne (congrArg _ heq.symm)]
  release_other id target hne := by
    cases target with
    | method m => rfl
    | handle id' =>
      show ((t.erase id).get? id').map callable = (t.get? id').map callable
      rw [get?_erase, if_neg fun heq => hne (congrArg _ heq.symm)]

/-! ## The end of a worker -/

/-- What the code around an end may do to it at any time, and what that does to handles. -/
inductive WorkerEndpoint.Changes {H : Type} (e : WorkerEndpoint H) :
    HandleLog Function → WorkerEndpoint H → Prop where
  | register {method handler e'} (h : e.register method handler = .ok e') : Changes e [] e'
  | unregister (method) : Changes e [] (e.unregister method).2
  | expose (f) : Changes e [.exposed (e.expose f).1 f] (e.expose f).2
  | release (h) : Changes e [.released h (e.release h).1] (e.release h).2

/-- Methods come and go without handles. -/
lemma WorkerEndpoint.Changes.history {H : Type} {e e' : WorkerEndpoint H}
    {log evs : HandleLog Function} (h : e.Changes evs e') (hlog : e.refs.History log) :
    e'.refs.History (log ++ evs) := by
  cases h with
  | register h =>
    obtain ⟨hs, -, h⟩ := bind_eq_ok.1 h
    cases h
    rwa [List.append_nil]
  | unregister => rwa [List.append_nil]
  | expose f => exact hlog.insert f
  | release id => exact hlog.erase id

lemma WorkerEndpoint.handlerFor_eq {H : Type} (e : WorkerEndpoint H) :
    e.handlerFor = e.refs.names (fun m => (e.handlers.get? m).map .inl) .inr := by
  funext target
  cases target <;> rfl

lemma WorkerEndpoint.namesForLife {H : Type} (e : WorkerEndpoint H) {log : HandleLog Function}
    (h : e.refs.History log) (hbound : log.exposed.length < 2 ^ 64) :
    NamesForLife log e.handlerFor .inr (fun f => ((e.expose f).1, (e.expose f).2.handlerFor))
      (fun id => ((e.release id).1, (e.release id).2.handlerFor)) := by
  simp only [handlerFor_eq]
  exact (h.kept hbound).namesForLife hbound _ _

namespace WorkerSide
variable {σ WH β : Type} {w w' : WorkerSide σ WH β}

/-- A thread gives out no handles and takes none back. -/
lemma Deed.refs (h : Deed w w') : w'.endpoint.refs = w.endpoint.refs := by
  cases h <;> rfl

lemma Deeds.refs (h : Deeds w w') : w'.endpoint.refs = w.endpoint.refs :=
  h.keep (fun hdeed heq => hdeed.refs.trans heq) rfl

lemma refs_close (w : WorkerSide σ WH β) : w.close.endpoint.refs = w.endpoint.refs := by
  unfold close
  split <;> rfl

variable [HasHeap σ]

/-- What happens at the end of a worker from its creation on, and what it does to handles, while
whoever holds the other end does what it likes. -/
inductive HandleRun (ps : WorkerPrograms σ WH) :
    WorkerSide σ WH β → HandleLog Function → Prop where
  | new (name : String) (link : Link) (state : σ) :
      HandleRun ps ⟨⟨.new name, [], .idle⟩, link, state⟩ []
  | manage {w log evs e} (before : HandleRun ps w log) (h : w.endpoint.Changes evs e) :
      HandleRun ps (w.setEndpoint e) (log ++ evs)
  /-- the thread moves -/
  | move {w log w'} (before : HandleRun ps w log) (h : w.move? ps = some w') : HandleRun ps w' log
  /-- the thread starts a computation of its own -/
  | start {w log} (before : HandleRun ps w log) (h : w.isListening = false)
      (task : WorkerTask σ β) : HandleRun ps (w.start task) log
  /-- the thread starts to serve -/
  | serve {w log} (before : HandleRun ps w log) (h : w.isListening = false) :
      HandleRun ps { w with thread := { w.thread with base := .serving } } log
  | close {w log} (before : HandleRun ps w log) : HandleRun ps w.close log
  | peer {w log l} (before : HandleRun ps w log) (h : w.link.Handled l) :
      HandleRun ps { w with link := l } log
  /-- whatever else goes on works on the state -/
  | work {w log} (before : HandleRun ps w log) (s : σ) : HandleRun ps { w with state := s } log

lemma HandleRun.history {ps : WorkerPrograms σ WH} {log : HandleLog Function}
    (h : HandleRun ps w log) : w.endpoint.refs.History log := by
  induction h with
  | new => exact .empty
  | manage before h ih => exact h.history ih
  | move before h ih =>
    rw [(deeds_move h).refs]
    exact ih
  | start before h task ih =>
    rw [(deeds_start _ task).refs]
    exact ih
  | serve before h ih => exact ih
  | close before ih =>
    rw [refs_close]
    exact ih
  | peer before h ih => exact ih
  | work before s ih => exact ih

/-- The next thing that a thread does is to take this message off its queue. -/
structure Meets (w : WorkerSide σ WH β) (m : Message) (rest : Queue) : Prop where
  listening : w.isListening = true
  aside : w.top?.bind w.endpoint.aside? = none
  receive : w.link.toWorker.receive = .message m rest

lemma Meets.move_eq {m : Message} {rest : Queue} (h : w.Meets m rest) (ps : WorkerPrograms σ WH) :
    w.move? ps = some (take ps { w with link := { w.link with toWorker := rest } } m) := by
  simp only [move?, h.listening, if_true, h.aside, h.receive]

/-- A call on what an end has runs it, if the arguments can be read. -/
lemma serveCall_of_some {ps : WorkerPrograms σ WH} {target : Target} {callable : WH ⊕ Function}
    (hfound : w.endpoint.handlerFor target = some callable) (id : CallId) (args : Wire) :
    w.serveCall ps id target args =
      match unpackArgs (HasHeap.heap w.state) args with
      | .error e => w.post (.fail id ⟨"TypeError", e.message⟩)
      | .ok (xs, hp) => runHandler id w (ps.callable callable xs (HasHeap.setHeap hp w.state)) := by
  rw [serveCall, hfound, Inbound.of]
  cases unpackArgs (HasHeap.heap w.state) args <;> rfl

lemma serveCall_of_none {target : Target} (hfound : w.endpoint.handlerFor target = none)
    (ps : WorkerPrograms σ WH) (id : CallId) (args : Wire) : w.serveCall ps id target args =
      w.post (.fail id ⟨"NoHandler", "no worker handler for " ++ target.text⟩) := by
  rw [serveCall, hfound]
  rfl

/-- What the handles of a worker come to after such a history. -/
structure AnswersHandles (ps : WorkerPrograms σ WH) (w : WorkerSide σ WH β)
    (log : HandleLog Function) : Prop where
  names : NamesForLife log w.endpoint.handlerFor .inr
    (fun f => ((w.endpoint.expose f).1, (w.endpoint.expose f).2.handlerFor))
    (fun h => ((w.endpoint.release h).1, (w.endpoint.release h).2.handlerFor))
  /-- a call on a live handle runs what was exposed under it, if the arguments can be read -/
  runs : ∀ {h f}, log.Live h f → ∀ {id args rest}, w.Meets (.call id (.handle h) args) rest →
    let w₁ := { w with link := { w.link with toWorker := rest } }
    w.move? ps = some (match unpackArgs (HasHeap.heap w.state) args with
      | .error e => w₁.post (.fail id ⟨"TypeError", e.message⟩)
      | .ok (xs, hp) => runHandler id w₁ (ps.callable (.inr f) xs (HasHeap.setHeap hp w.state)))
  /-- and on any other one it fails -/
  refuses : ∀ {h}, (∀ f, ¬ log.Live h f) → ∀ {id args rest},
    w.Meets (.call id (.handle h) args) rest →
    w.move? ps = some (post { w with link := { w.link with toWorker := rest } }
      (.fail id ⟨"NoHandler", "no worker handler for " ++ h.text⟩))

/-- The end of a worker answers calls on handles as their history says. -/
theorem HandleRun.answers {ps : WorkerPrograms σ WH} {log : HandleLog Function}
    (h : HandleRun ps w log) (hbound : log.exposed.length < 2 ^ 64) :
    w.AnswersHandles ps log := by
  have hnames := w.endpoint.namesForLife h.history hbound
  refine ⟨hnames, fun hlive id args rest htakes => ?_, fun hdead id args rest htakes => ?_⟩
  · rw [htakes.move_eq]
    let w₁ := { w with link := { w.link with toWorker := rest } }
    exact congrArg some (serveCall_of_some (w := w₁) (hnames.live hlive) id args)
  · rw [htakes.move_eq]
    let w₁ := { w with link := { w.link with toWorker := rest } }
    exact congrArg some (serveCall_of_none (w := w₁) (hnames.dead hdead) ps id args)

end WorkerSide
end WorkerHost
