import WorkerHost.Proofs.Channel.Handles
import WorkerHost.Proofs.Channel.HostAnswers

/-!
# Handles of a host

The end of a host is one of the channels of a network. Tasks run and wait, messages of all channels
are taken, ends are closed, workers do what they like: none of this touches a table. So at any time
the end answers calls on handles as its own history of exposing and releasing says,
`Network.HandleRun.answers`.

With `WorkerSide.HandleRun.answers` this makes `handles_for_life`: at either end a handle names one
callable, until it is released, and then none ever again.
-/

namespace WorkerHost

/-! ## Ends -/

/-- What the code around an end may do to it at any time, and what that does to handles. -/
inductive HostEndpoint.Changes {H : Type} (e : HostEndpoint H) :
    HandleLog H → HostEndpoint H → Prop where
  | register {method handler e'} (h : e.register method handler = .ok e') : Changes e [] e'
  | unregister (method) : Changes e [] (e.unregister method).2
  | expose (f) : Changes e [.exposed (e.expose f).1 f] (e.expose f).2
  | release (h) : Changes e [.released h (e.release h).1] (e.release h).2

namespace HostEndpoint
variable {H : Type} {e e' : HostEndpoint H} {log evs : HandleLog H}

/-- Methods come and go without handles. -/
lemma Changes.history (h : e.Changes evs e') (hlog : e.refs.History log) :
    e'.refs.History (log ++ evs) := by
  cases h with
  | register h =>
    obtain ⟨hs, -, h⟩ := bind_eq_ok.1 h
    cases h
    rwa [List.append_nil]
  | unregister => rwa [List.append_nil]
  | expose f => exact hlog.insert f
  | release id => exact hlog.erase id

lemma handlerFor_eq (e : HostEndpoint H) :
    e.handlerFor = e.refs.names e.handlers.get? fun f => f := by
  funext target
  cases target with
  | method m => rfl
  | handle id => exact Option.map_id'.symm

lemma namesForLife (e : HostEndpoint H) (h : e.refs.History log)
    (hbound : log.exposed.length < 2 ^ 64) :
    NamesForLife log e.handlerFor (fun f => f)
      (fun f => ((e.expose f).1, (e.expose f).2.handlerFor))
      (fun id => ((e.release id).1, (e.release id).2.handlerFor)) := by
  simp only [handlerFor_eq]
  exact (h.kept hbound).namesForLife hbound _ _

lemma refs_startCall (e : HostEndpoint H) (link : Link) (h : Heap) (target : Target)
    (args : List Value) : (e.startCall link h target args).2.1.refs = e.refs := by
  unfold startCall
  cases packArgs h args with
  | error err => rfl
  | ok args =>
    dsimp only
    split <;> rfl

lemma refs_dispatch (e : HostEndpoint H) (h : Heap) (m : Message) :
    (e.dispatch h m).2.1.refs = e.refs := by
  rcases e.dispatch_cases h m with
    ⟨-, id, target, args, heq⟩ | ⟨-, -, o, h', -, heq⟩ | ⟨-, -, h', heq⟩ <;> rw [heq]
  rfl

lemma refs_close (e : HostEndpoint H) (link : Link) : (e.close link).2.1.refs = e.refs := by
  unfold close
  split <;> rfl

lemma refs_finish (e : HostEndpoint H) (link : Link) : (e.finish link).2.1.refs = e.refs :=
  e.refs_close link

end HostEndpoint

/-! ## Tables of a network -/

namespace Network
variable {σ HH WH β ρ : Type}

/-- The tables of the host ends. -/
def tables (y : Network σ HH WH β ρ) : Array (RefTable HH) :=
  y.channels.map (·.host.refs)

section
variable {y y' : Network σ HH WH β ρ} {i : ℕ} {c d : Channel σ HH WH β}

lemma tables_setChannel (hc : y.channels[i]? = some c) (h : d.host.refs = c.host.refs) :
    (y.setChannel i d).tables = y.tables :=
  map_setChannel hc h

lemma getElem?_tables (hc : y.channels[i]? = some c) : y.tables[i]? = some c.host.refs := by
  rw [tables, Array.getElem?_map, hc, Option.map_some]

variable [HasHeap σ] {qs : Programs σ HH WH}

lemma tables_runStep {α : Type} (y : Network σ HH WH β ρ) (step : HostStep σ α) :
    (y.runStep step).2.tables = y.tables := by
  induction step generalizing y with
  | done a s => rfl
  | ask q s resume ih =>
    cases q with
    | never => rfl
    | line session read => rfl
    | sleep millis => exact ih () s y
    | call j target args =>
      unfold runStep
      dsimp only
      cases hc : y.channels[j]? with
      | none => exact ih (.error .closed) s _
      | some c =>
        dsimp only
        have hrefs := c.host.refs_startCall c.link (HasHeap.heap s) target args
        generalize c.host.startCall c.link (HasHeap.heap s) target args = r at hrefs
        obtain ⟨err | id, host, link⟩ := r
        · exact (ih (.error err) s _).trans (tables_setChannel hc hrefs)
        · exact tables_setChannel hc hrefs

lemma tables_continueServing (y : Network σ HH WH β ρ) (channel : ℕ) (id : CallId)
    (step : HostStep σ (Except RemoteError Value)) :
    (y.continueServing channel id step).tables = y.tables := by
  have hran := y.tables_runStep step
  unfold continueServing
  generalize y.runStep step = r at hran
  obtain ⟨outcome | waiting, y'⟩ := r
  · dsimp only
    cases hc : y'.channels[channel]? with
    | none => exact hran
    | some c =>
      let d : Channel σ HH WH β := { c with
        link := HostEndpoint.post c.link (answerTo (HasHeap.heap y'.state) id outcome) }
      exact (tables_setChannel (d := d) hc rfl).trans hran
  · exact hran

lemma tables_continueRunning (y : Network σ HH WH β ρ) (ticket : ℕ) (step : HostStep σ ρ) :
    (y.continueRunning ticket step).tables = y.tables := by
  have hran := y.tables_runStep step
  unfold continueRunning
  generalize y.runStep step = r at hran
  obtain ⟨result | waiting, y'⟩ := r
  · exact hran
  · exact hran

/-- A call that is resolved lets a task go on. -/
lemma tables_resolve (y : Network σ HH WH β ρ) (channel : ℕ) (id : CallId) (outcome : CallOutcome) :
    (y.resolve channel id outcome).tables = y.tables := by
  unfold resolve
  split
  · exact tables_continueServing _ _ _ _
  · split
    · exact tables_continueRunning _ _ _
    · rfl

lemma tables_reject (y : Network σ HH WH β ρ) (channel : ℕ) (ids : List CallId) :
    (y.reject channel ids).tables = y.tables := by
  unfold reject
  induction ids generalizing y with
  | nil => rfl
  | cons id ids ih => exact (ih _).trans (y.tables_resolve channel id _)

lemma tables_closeHost (y : Network σ HH WH β ρ) (i : ℕ) : (y.closeHost i).tables = y.tables := by
  unfold closeHost
  cases hc : y.channels[i]? with
  | none => rfl
  | some c => exact (tables_reject _ _ _).trans (tables_setChannel hc (c.host.refs_close c.link))

lemma tables_serve (hc : y.channels[i]? = some c) (id : CallId) (target : Target) (args : Wire) :
    (y.serve qs i c id target args).tables = y.tables := by
  unfold serve
  split
  · exact tables_setChannel hc rfl
  · exact tables_continueServing _ _ _ _

lemma tables_dispatch (h : y.dispatch? qs i = some y') : y'.tables = y.tables := by
  obtain ⟨c, hc, h⟩ := Option.bind_eq_some_iff.1 h
  obtain ⟨-, -, h⟩ := Option.bind_eq_some_iff.1 h
  cases hreceive : c.link.toHost.receive with
  | waiting => simp [hreceive] at h
  | ended =>
    simp only [hreceive] at h
    cases h
    exact (tables_reject _ _ _).trans (tables_setChannel hc (c.host.refs_finish c.link))
  | message m q =>
    simp only [hreceive] at h
    have hrefs := c.host.refs_dispatch (HasHeap.heap y.state) m
    generalize c.host.dispatch (HasHeap.heap y.state) m = r at hrefs h
    obtain ⟨event, host, hp⟩ := r
    let y₁ : Network σ HH WH β ρ :=
      { y.setChannel i { c with host := host, link := { c.link with toHost := q } } with
        state := HasHeap.setHeap hp y.state }
    have htaken : y₁.tables = y.tables := tables_setChannel hc hrefs
    cases h
    cases event with
    | resolved id outcome => exact (tables_resolve _ i id outcome).trans htaken
    | unknown => exact htaken
    | inbound id target args =>
      exact (tables_serve (y := y₁) (y.getElem?_setChannel hc) id target args).trans htaken

lemma tables_wake (h : y.wake? qs = some y') : y'.tables = y.tables := by
  unfold wake? at h
  split at h
  · cases h
    exact tables_continueServing _ _ _ _
  · split at h
    · cases h
      exact tables_continueRunning _ _ _
    · cases h

lemma tables_advance (h : y.advance? qs i = some y') : y'.tables = y.tables := by
  obtain ⟨c, hc, h⟩ := Option.bind_eq_some_iff.1 h
  obtain ⟨thread, -, h⟩ := Option.bind_eq_some_iff.1 h
  obtain ⟨w, -, h⟩ := Option.bind_eq_some_iff.1 h
  cases h
  exact tables_setChannel (d := { c with thread := some w.thread, link := w.link }) hc rfl

/-- What a host does by itself gives out no handles and takes none back. -/
lemma Acts.tables {more : List (Inquiry HH)} (h : Acts qs i y more y') : y'.tables = y.tables := by
  cases h with
  | dispatch j h => exact tables_dispatch h
  | wake h => exact tables_wake h
  | spawn task => exact tables_continueRunning _ _ _
  | abandon ticket => rfl
  | close j => exact tables_closeHost _ j

end

/-! ## Runs -/

/-- What happens from a channel's creation on, at it and around it, and what it does to the handles
of its host end. -/
inductive HandleRun [HasHeap σ] (qs : Programs σ HH WH) (i : ℕ) :
    Network σ HH WH β ρ → HandleLog HH → Prop where
  | new {y c} (hc : y.channels[i]? = some c) {name : String} (hnew : c.host = .new name) :
      HandleRun qs i y []
  | manage {y log c evs e} (before : HandleRun qs i y log) (hc : y.channels[i]? = some c)
      (h : c.host.Changes evs e) : HandleRun qs i (y.setChannel i { c with host := e }) (log ++ evs)
  /-- the host takes messages of channels, its tasks go on, begin or are forgotten, ends close -/
  | act {y log more y'} (before : HandleRun qs i y log) (h : Acts qs i y more y') :
      HandleRun qs i y' log
  /-- a worker thread moves -/
  | advance {y log y'} (before : HandleRun qs i y log) (j : ℕ) (h : y.advance? qs j = some y') :
      HandleRun qs i y' log
  /-- whoever holds the other end of a link does what it likes -/
  | peer {y log j c} (before : HandleRun qs i y log) (hc : y.channels[j]? = some c) (link : Link)
      (thread : Option (WorkerThread σ WH β)) :
      HandleRun qs i (y.setChannel j { c with link := link, thread := thread }) log
  /-- another host end changes -/
  | manageOther {y log j} (before : HandleRun qs i y log) (h : j ≠ i) (c : Channel σ HH WH β) :
      HandleRun qs i (y.setChannel j c) log
  | connect {y log} (before : HandleRun qs i y log) (c : Channel σ HH WH β) :
      HandleRun qs i { y with channels := y.channels.push c } log
  /-- whatever else goes on works on the state -/
  | work {y log} (before : HandleRun qs i y log) (s : σ) : HandleRun qs i { y with state := s } log

section
variable [HasHeap σ] {qs : Programs σ HH WH} {y : Network σ HH WH β ρ} {i : ℕ}
  {c : Channel σ HH WH β}

/-- Only exposing and releasing change the table of a host end. -/
lemma HandleRun.history {log : HandleLog HH} (h : HandleRun qs i y log) :
    ∃ t, y.tables[i]? = some t ∧ t.History log := by
  induction h with
  | new hc hnew => exact ⟨_, getElem?_tables hc, hnew ▸ .empty⟩
  | @manage y log c evs e before hc h ih =>
    obtain ⟨t, ht, hlog⟩ := ih
    obtain rfl := Option.some.inj ((getElem?_tables hc).symm.trans ht)
    exact ⟨e.refs, getElem?_tables (y.getElem?_setChannel hc), h.history hlog⟩
  | act before h ih => exact h.tables ▸ ih
  | advance before j h ih => exact tables_advance h ▸ ih
  | @peer y log j c before hc link thread ih =>
    have hsame := tables_setChannel (d := { c with link := link, thread := thread }) hc rfl
    exact hsame ▸ ih
  | @manageOther y log j before h c ih =>
    rw [tables, Array.getElem?_map, y.getElem?_setChannel_of_ne h, ← Array.getElem?_map]
    exact ih
  | @connect y log before c ih =>
    obtain ⟨t, ht, hlog⟩ := ih
    obtain ⟨hlt, ht⟩ := Array.getElem?_eq_some_iff.1 ht
    have hpush : ({ y with channels := y.channels.push c } : Network σ HH WH β ρ).tables =
        y.tables.push c.host.refs := Array.map_push
    refine ⟨t, ?_, hlog⟩
    rw [hpush, Array.getElem?_push_lt hlt, ht]
  | work before s ih => exact ih

/-! ## Answers -/

/-- The next thing that the host takes off a channel is this message. -/
structure Meets (y : Network σ HH WH β ρ) (i : ℕ) (c : Channel σ HH WH β) (m : Message)
    (rest : Queue) : Prop where
  channel : y.channels[i]? = some c
  dispatching : c.host.dispatching = true
  receive : c.link.toHost.receive = .message m rest

/-- The channel, and the network, when the message is taken. -/
def takenOff (c : Channel σ HH WH β) (rest : Queue) : Channel σ HH WH β :=
  { c with link := { c.link with toHost := rest } }

def taken (y : Network σ HH WH β ρ) (i : ℕ) (c : Channel σ HH WH β) (rest : Queue) :
    Network σ HH WH β ρ :=
  { y.setChannel i (takenOff c rest) with state := HasHeap.setHeap (HasHeap.heap y.state) y.state }

/-- A call that is taken is served. -/
lemma Meets.dispatch_eq {id : CallId} {target : Target} {args : Wire} {rest : Queue}
    (h : y.Meets i c (.call id target args) rest) (qs : Programs σ HH WH) :
    y.dispatch? qs i = some ((y.taken i c rest).serve qs i (takenOff c rest) id target args) := by
  simp only [dispatch?, h.channel, h.dispatching, h.receive, Option.bind_eq_bind, Option.bind_some,
    guard]
  rfl

/-- A call on what an end has runs it, if the arguments can be read. -/
lemma serve_of_some {target : Target} {callable : HH}
    (hfound : c.host.handlerFor target = some callable) (id : CallId) (args : Wire) :
    y.serve qs i c id target args =
      match unpackArgs (HasHeap.heap y.state) args with
      | .error e => y.setChannel i { c with
          link := HostEndpoint.post c.link (.fail id ⟨"TypeError", e.message⟩) }
      | .ok (xs, hp) =>
        ({ y with state := HasHeap.setHeap hp y.state } : Network σ HH WH β ρ).continueServing i id
          (qs.host i callable xs (HasHeap.setHeap hp y.state)) := by
  rw [serve, hfound, Inbound.of]
  cases unpackArgs (HasHeap.heap y.state) args <;> rfl

lemma serve_of_none {target : Target} (hfound : c.host.handlerFor target = none) (id : CallId)
    (args : Wire) : y.serve qs i c id target args = y.setChannel i { c with
      link := HostEndpoint.post c.link
        (.fail id ⟨"NoHandler", "no host handler for " ++ target.text⟩) } := by
  rw [serve, hfound]
  rfl

/-- What the handles of a host end come to after such a history. -/
structure AnswersHandles (qs : Programs σ HH WH) (y : Network σ HH WH β ρ) (i : ℕ)
    (c : Channel σ HH WH β) (log : HandleLog HH) : Prop where
  names : NamesForLife log c.host.handlerFor (fun f => f)
    (fun f => ((c.host.expose f).1, (c.host.expose f).2.handlerFor))
    (fun h => ((c.host.release h).1, (c.host.release h).2.handlerFor))
  /-- a call on a live handle runs what was exposed under it, if the arguments can be read -/
  runs : ∀ {h f}, log.Live h f → ∀ {id args rest}, y.Meets i c (.call id (.handle h) args) rest →
    let y₁ := y.taken i c rest
    y.dispatch? qs i = some (match unpackArgs (HasHeap.heap y₁.state) args with
      | .error e => y₁.setChannel i { takenOff c rest with
          link := HostEndpoint.post (takenOff c rest).link (.fail id ⟨"TypeError", e.message⟩) }
      | .ok (xs, hp) =>
        ({ y₁ with state := HasHeap.setHeap hp y₁.state } : Network σ HH WH β ρ).continueServing i
          id (qs.host i f xs (HasHeap.setHeap hp y₁.state)))
  /-- and on any other one it fails -/
  refuses : ∀ {h}, (∀ f, ¬ log.Live h f) → ∀ {id args rest},
    y.Meets i c (.call id (.handle h) args) rest →
    y.dispatch? qs i = some ((y.taken i c rest).setChannel i { takenOff c rest with
      link := HostEndpoint.post (takenOff c rest).link
        (.fail id ⟨"NoHandler", "no host handler for " ++ h.text⟩) })

/-- The end of a host answers calls on handles as their history says. -/
theorem HandleRun.answers {log : HandleLog HH} (h : HandleRun qs i y log)
    (hbound : log.exposed.length < 2 ^ 64) :
    ∃ c, y.channels[i]? = some c ∧ y.AnswersHandles qs i c log := by
  obtain ⟨t, ht, hlog⟩ := h.history
  rw [tables, Array.getElem?_map] at ht
  obtain ⟨c, hc, rfl⟩ := Option.map_eq_some_iff.1 ht
  have hnames := c.host.namesForLife hlog hbound
  refine ⟨c, hc, hnames, fun hlive id args rest htakes => ?_, fun hdead id args rest htakes => ?_⟩
  · rw [htakes.dispatch_eq]
    exact congrArg some (serve_of_some (c := takenOff c rest) (hnames.live hlive) id args)
  · rw [htakes.dispatch_eq]
    exact congrArg some (serve_of_none (c := takenOff c rest) (hnames.dead hdead) id args)

end
end Network

/-! ## Both ends -/

/-- A handle names one callable for life. At either end, whatever happens there with fewer than
`2 ^ 64` exposures: a call on a handle runs what was exposed under it as long as that has not been
released, and is refused at any other time; a release says whether the handle was live; no handle is
given out twice; and what the other handles and the methods name does not change. -/
theorem handles_for_life {σ HH WH β ρ : Type} [HasHeap σ] :
    (∀ (ps : WorkerPrograms σ WH) (w : WorkerSide σ WH β) (log : HandleLog Function),
      WorkerSide.HandleRun ps w log → log.exposed.length < 2 ^ 64 → w.AnswersHandles ps log) ∧
    ∀ (qs : Programs σ HH WH) (y : Network σ HH WH β ρ) (i : ℕ) (log : HandleLog HH),
      Network.HandleRun qs i y log → log.exposed.length < 2 ^ 64 →
      ∃ c, y.channels[i]? = some c ∧ y.AnswersHandles qs i c log :=
  ⟨fun _ _ _ run hbound => run.answers hbound, fun _ _ _ _ run hbound => run.answers hbound⟩

/-- Two callables are exposed at each end, and the first is released. Then its handle is called. -/
theorem handles_for_life_released :
    let call : Message := .call ⟨1⟩ (.handle ⟨1⟩) ⟨.null, []⟩
    let g : Function := ⟨1, "g", .first⟩
    let qs : Programs Heap Bool Unit :=
      ⟨fun _ _ _ => pure (.ok .null), fun _ => Pair.nullPrograms, fun _ _ _ => none⟩
    (∃ (w : WorkerSide Heap Unit Unit) (log : HandleLog Function),
      WorkerSide.HandleRun Pair.nullPrograms w log ∧ log.exposed = [⟨1⟩, ⟨2⟩] ∧
      w.Meets call .new ∧ .released ⟨1⟩ true ∈ log ∧ log.Live ⟨2⟩ g ∧
      w.endpoint.handlerFor (.handle ⟨1⟩) = none ∧
      w.endpoint.handlerFor (.handle ⟨2⟩) = some (.inr g)) ∧
    ∃ (y : Network Heap Bool Unit Unit Unit) (c : Channel Heap Bool Unit Unit)
      (log : HandleLog Bool),
      Network.HandleRun qs 0 y log ∧ log.exposed = [⟨1⟩, ⟨2⟩] ∧
      y.Meets 0 c call .new ∧ .released ⟨1⟩ true ∈ log ∧ log.Live ⟨2⟩ true ∧
      c.host.handlerFor (.handle ⟨1⟩) = none ∧ c.host.handlerFor (.handle ⟨2⟩) = some true := by
  intro call g qs
  let f : Function := ⟨0, "f", .nothing⟩
  obtain ⟨hworker, hhost⟩ := @handles_for_life Heap Bool Unit Unit Unit _
  constructor
  · have hnew : WorkerSide.HandleRun Pair.nullPrograms
        (⟨⟨.new "worker", [], .idle⟩, .new, .empty⟩ : WorkerSide Heap Unit Unit) [] :=
      .new "worker" .new Heap.empty
    have hexposed := (hnew.manage (.expose f)).manage (.expose g)
    have hwas := ((hworker Pair.nullPrograms _ _ hexposed (by decide)).names.release_iff ⟨1⟩).2
      ⟨f, [], [.exposed ⟨2⟩ g], rfl, by simp⟩
    have hrelease {e : WorkerEndpoint Unit} (h : (e.release ⟨1⟩).1 = true) :
        e.Changes [.released ⟨1⟩ true] (e.release ⟨1⟩).2 := h ▸ .release ⟨1⟩
    have run := ((hexposed.manage (hrelease hwas)).serve rfl).peer (.send (m := call) rfl)
    have hlive : HandleLog.Live _ ⟨2⟩ g :=
      ⟨[.exposed ⟨1⟩ f], [.released ⟨1⟩ true], rfl, by simp⟩
    have hgone : HandleEvent.released (K := Function) ⟨1⟩ true ∈
        [.exposed ⟨1⟩ f, .exposed ⟨2⟩ g, .released ⟨1⟩ true] := by simp
    have hnames := (hworker Pair.nullPrograms _ _ run (by decide)).names
    exact ⟨_, _, run, rfl, ⟨rfl, rfl, rfl⟩, hgone, hlive, hnames.dead (hnames.gone hgone),
      hnames.live hlive⟩
  · let y : Network Heap Bool Unit Unit Unit :=
      ⟨.empty, #[⟨.new "host", ⟨.new, .new⟩, none⟩], [], [], [], 0⟩
    have hnew : Network.HandleRun qs 0 y [] := .new rfl rfl
    have hexposed := (hnew.manage rfl (.expose false)).manage rfl (.expose true)
    obtain ⟨c, hc, hbefore⟩ := hhost qs _ 0 _ hexposed (by decide)
    have hwas := (hbefore.names.release_iff ⟨1⟩).2 ⟨false, [], [.exposed ⟨2⟩ true], rfl, by simp⟩
    have hrelease {e : HostEndpoint Bool} (h : (e.release ⟨1⟩).1 = true) :
        e.Changes [.released ⟨1⟩ true] (e.release ⟨1⟩).2 := h ▸ .release ⟨1⟩
    have hreleased := hexposed.manage hc (hrelease hwas)
    have run := hreleased.peer (Network.getElem?_setChannel _ hc) ⟨.new, ⟨[call], true, true⟩⟩ none
    have hlive : HandleLog.Live _ ⟨2⟩ true :=
      ⟨[.exposed ⟨1⟩ false], [.released ⟨1⟩ true], rfl, by simp⟩
    have hgone : HandleEvent.released (K := Bool) ⟨1⟩ true ∈
        [.exposed ⟨1⟩ false, .exposed ⟨2⟩ true, .released ⟨1⟩ true] := by simp
    obtain ⟨c', hc', hanswers⟩ := hhost qs _ 0 _ run (by decide)
    have hnames := hanswers.names
    cases hc
    cases hc'
    exact ⟨_, _, _, run, rfl, ⟨rfl, rfl, rfl⟩, hgone, hlive, hnames.dead (hnames.gone hgone),
      hnames.live hlive⟩

end WorkerHost
