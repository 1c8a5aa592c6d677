import WorkerHost.Proofs.Environment.Reports
import WorkerHost.Proofs.Environment.Roster

/-!
# Terminals of workers

What each operation of an environment does to the roster of workers and to what is named at the host
ends. As long as the methods that workers come with leave the roster alone, it changes only in
three ways: a worker that is started takes the next number and the next channel
(`createWorker_started`), a terminal that is attached to a worker without one is given the next
session, to which that worker's reads and writes go from then on (`Undisturbed.attach`), and the
session of a worker that is ended is forgotten (`Undisturbed.terminate`). A worker with a terminal
is given no other (`attachTerminal_of_some`).
-/

namespace WorkerHost

open EnvironmentState (roster)

/-! ## Host ends with a terminal -/

/-- What is named at a host end where a session is bound: reads and writes go to the session. -/
def boundTo (session : ℕ) (names : Target → Option HostMethod) : Target → Option HostMethod
  | .method name =>
    if name = Method.read then some (.terminalRead session)
    else if name = Method.write then some (.terminalWrite session)
    else names (.method name)
  | .handle h => names (.handle h)

/-- The methods of a terminal are no worker's own. -/
lemma modest_boundTo {names : Target → Option HostMethod} {session : ℕ}
    (h : ∀ target m, names target = some m → m.Modest) (target : Target) (m : HostMethod)
    (hm : boundTo session names target = some m) : m.Modest := by
  unfold boundTo at hm
  split at hm
  · split_ifs at hm
    · cases hm
      trivial
    · cases hm
      trivial
    · exact h _ m hm
  · exact h _ m hm

lemma HostEndpoint.handlerFor_bindTerminal (e : HostEndpoint HostMethod) (session : ℕ) :
    (e.bindTerminal session).handlerFor = boundTo session e.handlerFor := by
  funext target
  cases target with
  | handle h => rfl
  | method name =>
    by_cases hbound : name = Method.read ∨ name = Method.write
    · -- the methods that were there before are gone
      have hnone : (e.handlers.entries.filter fun h =>
          h.1 != Method.read && h.1 != Method.write).find? (·.1 == name) = none := by
        rw [List.find?_filter, List.find?_eq_none]
        rintro ⟨other, m⟩ -
        rcases hbound with rfl | rfl <;> simp +contextual
      simp only [bindTerminal, handlerFor, Handlers.get?, List.find?_append, hnone]
      rcases hbound with rfl | rfl <;> rfl
    · obtain ⟨hread, hwrite⟩ := not_or.1 hbound
      rw [boundTo, if_neg hread, if_neg hwrite]
      exact e.get?_bindTerminal session hread hwrite

/-- What is named at an end was named there before, or is one of the methods that were added. -/
lemma HostEndpoint.handlerFor_registerAll {e : HostEndpoint HostMethod}
    {methods : List (String × HostMethod)} {target : Target} {m : HostMethod}
    (hm : (e.registerAll methods).2.handlerFor target = some m) :
    e.handlerFor target = some m ∨ ∃ name, (name, m) ∈ methods := by
  induction methods generalizing e with
  | nil => exact .inl hm
  | cons entry rest ih =>
    obtain ⟨name, method⟩ := entry
    rw [registerAll] at hm
    split at hm
    · next e₁ hregister =>
      rcases ih hm with hm | ⟨name', hmem⟩
      · obtain ⟨hadded, heq⟩ := handlers_register hregister
        cases target with
        | handle id =>
          rw [heq] at hm
          exact .inl hm
        | method name' =>
          refine (Handlers.of_get?_register hadded hm).imp_right fun hnew => ⟨name, ?_⟩
          rw [hnew]
          exact List.mem_cons_self
      · exact .inr ⟨name', List.mem_cons_of_mem _ hmem⟩
    · exact .inl hm

namespace Environment

/-- This is the roster and this is named, and neither anything that is under way nor any method
that can be called changes the roster. -/
structure Undisturbed (v : Roster) (names : Array (Target → Option HostMethod))
    (y : Environment) : Prop where
  network : y.Leaves roster v names
  methods : ∀ f ∈ names, ∀ target m, f target = some m → m.Modest

variable {v : Roster} {names : Array (Target → Option HostMethod)} {y y' : Environment}

lemma run_get (y : Environment) : (get : StateM Environment Environment).run y = (y, y) := rfl

lemma run_onState {α : Type} (f : EnvironmentState → α × EnvironmentState) (y : Environment) :
    (onState f).run y = ((f y.state).1, { y with state := (f y.state).2 }) := rfl

namespace Undisturbed

lemma new (role : Role) (settings : Settings) (files : FileFetch) :
    Undisturbed ⟨1, [], #[]⟩ #[] (.new role settings files) where
  network :=
    { state := congrArg (Roster.mk 1 []) Array.map_empty
      named := Array.map_empty
      serving := List.forall_mem_nil _
      running := List.forall_mem_nil _
      threads i c thread hc _ := by
        have hnone : (Environment.new role settings files).channels[i]? = none := rfl
        cases hnone.symm.trans hc }
  methods f hf := absurd hf (Array.not_mem_empty f)

variable (h : Undisturbed v names y)
include h

lemma leave : environmentPrograms.Leave roster names where
  host f hf target m hm channel args :=
    HostMethod.leaves_serve (h.methods f hf target m hm) channel args
  worker := leaves_callable
  heap _ _ := rfl

lemma progress (fuel : ℕ) : Undisturbed v names (Network.settle environmentPrograms fuel y) :=
  ⟨h.network.settle h.leave fuel, h.methods⟩

/-- Threads that have ended are gone. -/
lemma reap : Undisturbed v names y.reap := by
  refine ⟨h.network.withChannels ?_ fun i c' t' hc' ht' => ?_, h.methods⟩
  · rw [← h.network.named, Array.map_map]
    refine congrArg (y.channels.map ·) (funext fun c => ?_)
    dsimp only [Function.comp]
    split <;> rfl
  · obtain ⟨c, hc, rfl⟩ := Option.map_eq_some_iff.1 (Array.getElem?_map.symm.trans hc')
    split at ht'
    · cases ht'
    · exact ⟨c, t', hc, ht', rfl, fun _ _ => id⟩

lemma settle : Undisturbed v names (settle.run y).2 :=
  ((h.progress _).reap).progress _

/-- One channel changes: its host end names what it named, and its thread has begun nothing else. -/
lemma modifyChannel {i : ℕ}
    {g : Channel EnvironmentState HostMethod RunMode Unit →
      Channel EnvironmentState HostMethod RunMode Unit}
    (hhost : ∀ c, (g c).host.handlerFor = c.host.handlerFor)
    (hthread : ∀ c t', (g c).thread = some t' → ∃ t, c.thread = some t ∧ t'.frames = t.frames ∧
      ∀ id resume, t'.base = .waiting id resume → t.base = .waiting id resume) :
    Undisturbed v names { y with channels := y.channels.modify i g } := by
  have hnames : names.modify i id = names := by
    refine Array.ext_getElem? fun j => ?_
    simp [Array.getElem?_modify]
  exact ⟨hnames ▸ h.network.modifyChannel (k := id) hhost hthread, h.methods⟩

/-- A thread that serves has nothing of its own under way. -/
lemma serve (channel : ℕ) : Undisturbed v names (y.serve channel) := by
  refine h.modifyChannel (fun _ => rfl) fun c t' ht' => ?_
  obtain ⟨t, ht, rfl⟩ := Option.map_eq_some_iff.1 ht'
  exact ⟨t, ht, rfl, nofun⟩

/-- Something is done to the state. -/
lemma work {s : EnvironmentState} {u : Roster} (hs : s.roster = u) :
    Undisturbed u names { y with state := s } :=
  ⟨h.network.work hs, h.methods⟩

lemma spawn {task : HostTask EnvironmentState TaskResult} (htask : task.Leaves roster) :
    Undisturbed v names ((Environment.spawn task).run y).2 :=
  ⟨h.network.spawn htask, h.methods⟩

lemma closeHost (channel : ℕ) : Undisturbed v names (y.closeHost channel) :=
  ⟨h.network.closeHost channel, h.methods⟩

/-! ### Operations -/

lemma await (ticket : ℕ) : Undisturbed v names ((await ticket).run y).2 :=
  h.settle

lemma run (w : Worker) (code : String) (mode : RunMode) :
    Undisturbed v names ((run w code mode).run y).2 :=
  (h.spawn (leaves_runTask w w.name code mode)).settle

lemma call (w : Worker) (target : Target) (args : List Value) :
    Undisturbed v names ((call w target args).run y).2 :=
  (h.spawn (.bind (leaves_callWorker _ _ _) fun _ => leaves_pure _)).settle

lemma onTerminal (w : Worker) (f : Session → Session) :
    Undisturbed v names ((onTerminal w f).run y).2 := by
  unfold Environment.onTerminal
  rw [run_bind_of_run (run_get y)]
  split
  · next session _ =>
    rw [run_bind_of_run (run_onState _ y)]
    refine (h.work ?_).settle
    rw [EnvironmentState.roster_onSession, h.network.state]
  · exact h

/-- The sessions of all workers but one. -/
lemma dropHandle (w : Worker) :
    Undisturbed { v with terminals := v.terminals.filter (·.1 != w.id) } names
      ((dropHandle w).run y).2 := by
  have hclosed := h.closeHost w.channel
  have hroster : ((y.closeHost w.channel).state.forgetTerminal w.id).roster =
      { v with terminals := v.terminals.filter (·.1 != w.id) } := by
    rw [← hclosed.network.state]
    rfl
  exact hclosed.work hroster

lemma terminate (w : Worker) :
    Undisturbed { v with terminals := v.terminals.filter (·.1 != w.id) } names
      ((terminate w).run y).2 :=
  (h.dropHandle w).settle

end Undisturbed

/-! ## Terminals -/

/-- A worker that has a terminal is given no other, and nothing happens. -/
lemma attachTerminal_of_some {w : Worker} {session : ℕ}
    (h : y.state.sessionOf? w.id = some session) (terminal : String) :
    (attachTerminal w terminal).run y = (false, y) := by
  have hopen : y.state.openTerminal w.id terminal = (none, y.state) := by
    rw [EnvironmentState.openTerminal, h]
  unfold attachTerminal
  rw [run_bind_of_run (run_onState _ y), hopen]
  rfl

/-- A worker without one is given the next session, to which its reads and writes go from then on.
-/
lemma attachTerminal_of_none {w : Worker} (h : y.state.sessionOf? w.id = none)
    (terminal : String) : (attachTerminal w terminal).run y = (true, { y with
      state := { y.state with
        sessions := y.state.sessions.push (.new terminal y.state.settings.terminalEcho)
        terminals := (w.id, y.state.sessions.size) :: y.state.terminals }
      channels := y.channels.modify w.channel fun c =>
        { c with host := c.host.bindTerminal y.state.sessions.size } }) := by
  have hopen : y.state.openTerminal w.id terminal = (some y.state.sessions.size, { y.state with
      sessions := y.state.sessions.push (.new terminal y.state.settings.terminalEcho)
      terminals := (w.id, y.state.sessions.size) :: y.state.terminals }) := by
    rw [EnvironmentState.openTerminal, h]
  unfold attachTerminal
  rw [run_bind_of_run (run_onState _ y), hopen]
  rfl

namespace Undisturbed
variable (h : Undisturbed v names y)
include h

/-- A worker without a terminal is given one. -/
lemma attach {w : Worker} (hnone : y.state.sessionOf? w.id = none) (terminal : String) :
    Undisturbed { v with terminals := (w.id, y.state.sessions.size) :: v.terminals }
      (names.modify w.channel (boundTo y.state.sessions.size))
      ((attachTerminal w terminal).run y).2 := by
  rw [attachTerminal_of_none hnone]
  constructor
  · have hroster := h.network.state
    refine (h.network.work (u := { v with terminals := _ }) ?_).modifyChannel
      (fun c => c.host.handlerFor_bindTerminal _) fun c t' ht' => ⟨t', ht', rfl, fun _ _ => id⟩
    rw [← hroster]
    rfl
  · intro f hf
    obtain ⟨i, hi⟩ := Array.mem_iff_getElem?.1 hf
    rw [Array.getElem?_modify] at hi
    split at hi
    · obtain ⟨g, hg, rfl⟩ := Option.map_eq_some_iff.1 hi
      exact modest_boundTo (h.methods g (Array.mem_of_getElem? hg))
    · exact h.methods f (Array.mem_of_getElem? hi)

end Undisturbed

/-! ## Steps of a start -/

section
variable {v : Roster} {names : Array (Target → Option HostMethod)} {y : Environment}
  {f : Target → Option HostMethod}

/-- At the host end of a channel something else is named, and its thread leaves the roster alone. -/
lemma Undisturbed.exchange {d : Channel EnvironmentState HostMethod RunMode Unit}
    {s : EnvironmentState} {u : Roster} (h : Undisturbed v (names.push f) y) (hs : s.roster = u)
    (hd : ∀ thread, d.thread = some thread → WorkerSide.Leaves roster u ⟨thread, d.link, s⟩)
    (hmethods : ∀ target m, d.host.handlerFor target = some m → m.Modest) :
    Undisturbed u (names.push d.host.handlerFor)
      { y.setChannel names.size d with state := s } := by
  have hnames : (names.push f).setIfInBounds names.size d.host.handlerFor =
      names.push d.host.handlerFor := by
    refine Array.ext_getElem? fun i => ?_
    grind
  refine ⟨hnames ▸ h.network.exchange hs hd, fun g hg => ?_⟩
  rcases Array.mem_push.1 hg with hg | rfl
  · exact h.methods g (Array.mem_push.2 (.inl hg))
  · exact hmethods

/-- A worker that is to be started is given a channel. -/
lemma Undisturbed.openChannel (h : Undisturbed v names y) (name : String) :
    Undisturbed { v with configs := v.configs.push .null }
      (names.push (HostEndpoint.new name).handlerFor) ((openChannel name).run y).2 := by
  refine ⟨h.network.push ?_, fun g hg => ?_⟩
  · rw [← h.network.state]
    exact congrArg (Roster.mk _ _) Array.map_push
  rcases Array.mem_push.1 hg with hg | rfl
  · exact h.methods g hg
  · rintro (name' | handle) m hm
    · cases hm
    · simp [HostEndpoint.handlerFor, HostEndpoint.new, RefTable.get?, RefTable.empty] at hm

/-- The channel that was opened last. -/
lemma Undisturbed.exists_last (h : Undisturbed v (names.push f) y) :
    ∃ c, y.channels[names.size]? = some c ∧ c.host.handlerFor = f := by
  have hlast : (y.channels.map (·.host.handlerFor))[names.size]? = some f := by
    rw [h.network.named, Array.getElem?_push_size]
  rw [Array.getElem?_map] at hlast
  exact Option.map_eq_some_iff.1 hlast

lemma run_registerMethods {i : ℕ} {c : Channel EnvironmentState HostMethod RunMode Unit}
    (hc : y.channels[i]? = some c) (methods : List (String × HostMethod)) :
    (registerMethods i methods).run.run y =
      ((c.host.registerAll methods).1.mapError .channel,
        y.setChannel i { c with host := (c.host.registerAll methods).2 }) := by
  unfold registerMethods
  rw [ExceptT.run_mk, StateT.run, hc]

lemma run_startThread {i : ℕ} {c : Channel EnvironmentState HostMethod RunMode Unit}
    (hc : y.channels[i]? = some c) (name : String) :
    (startThread i name).run.run y =
      match y.state.noThread with
      | some reason => (.error (.spawnFailed reason), y)
      | none => (.ok (), y.setChannel i { c with thread := some ⟨.new name, [], .idle⟩ }) := by
  unfold startThread
  rw [ExceptT.run_mk, StateT.run, hc]
  cases y.state.noThread <;> rfl

lemma Undisturbed.registerMethods (h : Undisturbed v (names.push f) y)
    {methods : List (String × HostMethod)} (hmethods : ∀ m ∈ methods, m.2.Modest) :
    ∃ g, Undisturbed v (names.push g) ((registerMethods names.size methods).run.run y).2 := by
  obtain ⟨c, hc, rfl⟩ := h.exists_last
  rw [run_registerMethods hc]
  refine ⟨_, h.exchange (d := { c with host := (c.host.registerAll methods).2 })
    h.network.state (h.network.threads _ c · hc) fun target m hm => ?_⟩
  rcases HostEndpoint.handlerFor_registerAll hm with hm | ⟨name, hmem⟩
  · exact h.methods _ Array.mem_push_self target m hm
  · exact hmethods _ hmem

lemma Undisturbed.startThread (h : Undisturbed v (names.push f) y) (name : String) :
    Undisturbed v (names.push f) ((startThread names.size name).run.run y).2 := by
  obtain ⟨c, hc, rfl⟩ := h.exists_last
  rw [run_startThread hc]
  split
  · exact h
  · refine h.exchange (d := { c with thread := some ⟨.new name, [], .idle⟩ }) h.network.state
      (fun thread hthread => ?_) (h.methods _ Array.mem_push_self)
    cases hthread
    exact .idle h.network.state

/-- The worker's callbacks for `onReady` are called. -/
lemma Undisturbed.beginWork (h : Undisturbed v (names.push f) y) :
    Undisturbed v (names.push f) (y.beginWork names.size) := by
  obtain ⟨c, hc, rfl⟩ := h.exists_last
  unfold Environment.beginWork
  split
  · next host link thread hc' =>
    obtain rfl := Option.some.inj (hc.symm.trans hc')
    have hstarted := (h.network.threads _ _ thread hc rfl).start (leaves_becomeReady names.size)
    dsimp only
    generalize WorkerSide.start (⟨thread, link, y.state⟩ : WorkerSide EnvironmentState RunMode Unit)
      (WorkerContext.becomeReady names.size) = w at hstarted ⊢
    refine h.exchange (d := ⟨host, w.link, some w.thread⟩) hstarted.state
      (fun thread' hthread' => ?_) (h.methods _ Array.mem_push_self)
    cases hthread'
    exact hstarted
  · exact h

lemma Undisturbed.dropWorker (h : Undisturbed v names y) (channel : ℕ) :
    Undisturbed v names ((dropWorker channel).run y).2 :=
  h.modifyChannel (fun _ => rfl) (fun _ _ => nofun)

lemma Undisturbed.dispatch (h : Undisturbed v names y) (channel : ℕ) :
    Undisturbed v names ((dispatch channel).run y).2 := by
  show Undisturbed v names ((Network.dispatch? environmentPrograms y channel).getD y)
  cases hdispatch : Network.dispatch? environmentPrograms y channel with
  | none => exact h
  | some y' => exact ⟨h.network.dispatch h.leave hdispatch, h.methods⟩

end

/-! ## New workers -/

/-- From where `P` holds, a step of starting a worker leads to where `Q` holds of its result, or, if
it fails, to where `E` holds. -/
def Starts {α : Type} (P : Environment → Prop) (Q : α → Environment → Prop)
    (E : Environment → Prop) (x : StartM α) : Prop :=
  ∀ y, P y →
    match x.run.run y with
    | (.ok a, y') => Q a y'
    | (.error _, y') => E y'

namespace Starts
variable {α γ : Type} {P E : Environment → Prop} {Q : α → Environment → Prop}
  {Q' : γ → Environment → Prop}

lemma bind {x : StartM α} {f : α → StartM γ} (hx : Starts P Q E x)
    (hf : ∀ a, Starts (Q a) Q' E (f a)) : Starts P Q' E (x >>= f) := by
  intro y hy
  have hstep := hx y hy
  rw [ExceptT.run_bind]
  generalize hrun : x.run.run y = r at hstep
  obtain ⟨e | a, y'⟩ := r
  · rw [run_bind_of_run hrun]
    exact hstep
  · rw [run_bind_of_run hrun]
    exact hf a y' hstep

lemma pure {a : α} (h : ∀ y, P y → Q a y) : Starts P Q E (Pure.pure a : StartM α) :=
  fun y hy => h y hy

lemma attempt {ε : Type} {reason : ε → WorkerError} {r : Except ε α} (hE : ∀ y, P y → E y)
    (hQ : ∀ a y, r = .ok a → P y → Q a y) : Starts P Q E (attempt reason r) := by
  intro y hy
  cases r with
  | ok a => exact hQ a y rfl hy
  | error e => exact hE y hy

/-- What does not depend on the environment holds from there on. -/
lemma given {p : Prop} {x : StartM α} (h : p → Starts P Q E x) :
    Starts (fun y => p ∧ P y) Q E x :=
  fun y hy => h hy.1 y hy.2

lemma get {Q : Environment → Environment → Prop} (hQ : ∀ y, P y → Q y y) :
    Starts P Q E (MonadState.get : StartM Environment) :=
  fun y hy => hQ y hy

lemma lift {x : StateM Environment α} (hQ : ∀ y, P y → Q (x.run y).1 (x.run y).2) :
    Starts P Q E (liftM x : StartM α) :=
  fun y hy => hQ y hy

/-- Whatever step fails, something goes away before it is left. -/
lemma ifFails {x : StartM α} {drop : StateM Environment Unit} {D : Environment → Prop}
    (hx : Starts P Q D x) (hdrop : ∀ y, D y → E (drop.run y).2) :
    Starts P Q E (ifFails drop x) := by
  intro y hy
  have hstep := hx y hy
  unfold Environment.ifFails
  rw [ExceptT.run_mk]
  generalize hrun : x.run.run y = r at hstep
  obtain ⟨e | a, y'⟩ := r
  · rw [run_bind_of_run hrun]
    exact hdrop y' hstep
  · rw [run_bind_of_run hrun]
    exact hstep

end Starts

/-- The methods of a new worker are those of every worker, those of the store, and its own. -/
lemma modest_forWorker {hasStore : Bool} {methods : List (String × HostMethod)}
    (hmethods : ∀ m ∈ methods, m.2.Modest) :
    ∀ p ∈ HostMethod.forWorker hasStore methods, p.2.Modest := by
  have hstandard : ∀ p ∈ HostMethod.standard, p.2.Modest := by
    simp [HostMethod.standard, HostMethod.Modest]
  have hstore : ∀ p ∈ HostMethod.ofStore, p.2.Modest := by
    simp [HostMethod.ofStore, HostMethod.Modest]
  intro p hp
  rcases List.mem_append.1 hp with hp | hp
  · rcases List.mem_append.1 hp with hp | hp
    · exact hstandard p hp
    · split at hp
      · exact hstore p hp
      · cases hp
  · exact hmethods p hp

/-- A worker's context is made without a number or a session, and with its configuration. -/
lemma roster_bootWorker (s : EnvironmentState) (name : String) (factory : Factory)
    (version : Option String) (config : Value) :
    (s.bootWorker name factory version config).2.roster = s.roster ∧
      ∀ context, (s.bootWorker name factory version config).1 = .ok context →
        context.config = config := by
  unfold EnvironmentState.bootWorker
  dsimp only
  split
  · exact ⟨rfl, fun _ hcontext => by cases hcontext⟩
  · split
    · exact ⟨rfl, fun _ hcontext => by cases hcontext⟩
    · split
      · exact ⟨rfl, fun _ hcontext => by cases hcontext⟩
      · exact ⟨rfl, fun context hcontext => by cases hcontext; rfl⟩

/-- The configuration is the value that was given, if one was. -/
def Configured (source : Option ConfigSource) (config : Value) : Prop :=
  (source = none → config = .null) ∧ ∀ value, source = some (.value value) → config = value

lemma starts_resolveConfig {E : Environment → Prop} (source : Option ConfigSource)
    (hE : ∀ y, Undisturbed v names y → E y) :
    Starts (Undisturbed v names) (fun config y => Configured source config ∧ Undisturbed v names y)
      E (resolveConfig source) := by
  cases source with
  | none => exact .pure fun _ hy => ⟨⟨fun _ => rfl, nofun⟩, hy⟩
  | some source =>
    refine .bind (Q := fun _ => Undisturbed v names) (.get fun _ => id) fun z => ?_
    refine .bind (Q := fun r y => Configured (some source) r.1 ∧ Undisturbed v names y)
      (.attempt hE fun r y hr hy => ⟨⟨nofun, ?_⟩, hy⟩) fun r => ?_
    · rintro value hvalue
      cases hvalue
      cases hr
      rfl
    · refine .bind (Q := fun _ y => Configured (some source) r.1 ∧ Undisturbed v names y)
        (.lift fun y hy => ?_) fun _ => .pure fun _ => id
      exact ⟨hy.1, hy.2.work hy.2.network.state⟩

end Environment

/-- There is a worker more. -/
def Roster.next (v : Roster) (config : Value) : Roster where
  nextWorker := v.nextWorker + 1
  terminals := v.terminals
  configs := v.configs.push config

namespace Environment
variable {v : Roster} {names : Array (Target → Option HostMethod)} {y : Environment}

/-- What a start that fails leaves: maybe a number that is used up and a channel. If there was a
handle, the session under its number is forgotten. -/
inductive Spent (v : Roster) (names : Array (Target → Option HostMethod)) :
    Roster → Array (Target → Option HostMethod) → Prop
  | nothing : Spent v names v names
  | channel (f : Target → Option HostMethod) : Spent v names (v.next .null) (names.push f)
  | handle (f : Target → Option HostMethod) : Spent v names
      { v.next .null with terminals := v.terminals.filter (·.1 != v.nextWorker) } (names.push f)

/-- The context of the last worker is made. -/
lemma roster_updateWorker_last {s : EnvironmentState} (context : WorkerContext)
    (hs : s.roster = v.next .null) :
    (s.updateWorker v.configs.size fun _ => context).roster = v.next context.config := by
  rw [EnvironmentState.roster, Roster.mk.injEq] at hs
  obtain ⟨hnext, hterminals, hconfigs⟩ := hs
  have hmodified : (s.workers.modify v.configs.size fun _ => context).map (·.config) =
      v.configs.push context.config := by
    have hsize : s.workers.size = v.configs.size + 1 := by
      rw [← Array.size_map (f := (·.config)), hconfigs]
      exact Array.size_push _
    refine Array.ext_getElem? fun i => ?_
    have hold : (s.workers.map (·.config))[i]? = (v.configs.push .null)[i]? := by
      rw [hconfigs]
      rfl
    grind
  exact (Roster.mk.injEq ..).mpr ⟨hnext, hterminals, hmodified⟩

/-- Once there is a channel, the worker's context is made and given its configuration. If that
fails, the channel stays. -/
lemma starts_bootThread (hsize : v.configs.size = names.size) {w : Worker}
    (hchannel : w.channel = names.size) (factory : Factory) (version : Option String) :
    Starts (fun y => ∃ f, Undisturbed (v.next .null) (names.push f) y)
      (fun _ y => ∃ f, Undisturbed (v.next w.config) (names.push f) y)
      (fun y => ∃ f, Undisturbed (v.next .null) (names.push f) y)
      (bootThread w factory version) := by
  refine .bind (Q := fun context y => context.config = w.config ∧
    ∃ f, Undisturbed (v.next .null) (names.push f) y) (fun y hy => ?_)
      fun context => .given fun hcontext => .lift fun y hy => ?_
  · obtain ⟨f, hy⟩ := hy
    have hboot := roster_bootWorker y.state w.name factory version w.config
    rw [ExceptT.run_mk, run_onState]
    generalize y.state.bootWorker w.name factory version w.config = r at hboot
    obtain ⟨e | context, s⟩ := r
    · exact ⟨f, hy.work (hboot.1.trans hy.network.state)⟩
    · exact ⟨hboot.2 context rfl, f, hy.work (hboot.1.trans hy.network.state)⟩
  · obtain ⟨f, hy⟩ := hy
    refine ⟨f, ?_⟩
    have hroster := roster_updateWorker_last context hy.network.state
    rw [hsize, hcontext] at hroster
    rw [hchannel]
    exact (hy.work hroster).beginWork

/-- A worker that can not be launched leaves its channel, and maybe has forgotten a session. -/
lemma starts_launch (hsize : v.configs.size = names.size) {w : Worker}
    (hid : w.id = v.nextWorker) (hchannel : w.channel = names.size)
    {methods : List (String × HostMethod)} (hmethods : ∀ m ∈ methods, m.2.Modest)
    (factory : Factory) (version : Option String) :
    Starts (fun y => ∃ f, Undisturbed (v.next .null) (names.push f) y)
      (fun _ y => ∃ f, Undisturbed (v.next w.config) (names.push f) y)
      (fun y => ∃ v' names', Spent v names v' names' ∧ Undisturbed v' names' y)
      (launch w methods factory version) := by
  refine .ifFails (D := fun y => ∃ v' names', Spent v names v' names' ∧ Undisturbed v' names' y)
    (.bind (Q := fun _ y => ∃ f, Undisturbed (v.next .null) (names.push f) y)
      (.ifFails (D := fun y => ∃ f, Undisturbed (v.next .null) (names.push f) y)
        (.bind (Q := fun _ y => ∃ f, Undisturbed (v.next .null) (names.push f) y)
          (fun y hy => ?_) fun _ y hy => ?_) fun y hy => ?_)
      fun _ => .ifFails (starts_bootThread hsize hchannel factory version) fun y hy => ?_)
    fun y hy => ?_
  · obtain ⟨f, hy⟩ := hy
    have hregistered := hy.registerMethods hmethods
    rw [hchannel]
    split <;> rename_i heq <;> rwa [heq] at hregistered
  · obtain ⟨f, hy⟩ := hy
    have hstarted := hy.startThread w.name
    rw [hchannel]
    split <;> rename_i heq <;> rw [heq] at hstarted <;> exact ⟨f, hstarted⟩
  · obtain ⟨f, hy⟩ := hy
    exact ⟨_, _, .channel f, hy.dropWorker _⟩
  · obtain ⟨f, hy⟩ := hy
    refine ⟨_, _, .handle f, ?_⟩
    rw [← hid]
    exact (hy.dropWorker w.channel).dropHandle w
  · obtain ⟨v', names', hspent, hy⟩ := hy
    exact ⟨v', names', hspent, hy.dispatch _⟩

/-- A worker that is prepared has a new number and a new channel, and its context has been given its
configuration. If it can not be prepared, a number and a channel may be used up. -/
lemma starts_prepare (source : SourceRef) {o : WorkerOptions}
    (hmethods : ∀ m ∈ o.methods, m.2.Modest) (hsize : v.configs.size = names.size) :
    Starts (Undisturbed v names)
      (fun r y => (r.1.id = v.nextWorker ∧ r.1.channel = names.size ∧
        Configured o.config r.1.config) ∧ ∃ f, Undisturbed (v.next r.1.config) (names.push f) y)
      (fun y => ∃ v' names', Spent v names v' names' ∧ Undisturbed v' names' y)
      (prepare source o) := by
  have hfailed : ∀ y, Undisturbed v names y →
      ∃ v' names', Spent v names v' names' ∧ Undisturbed v' names' y :=
    fun y hy => ⟨v, names, .nothing, hy⟩
  unfold prepare
  refine .bind (Q := fun _ => Undisturbed v names) (.get fun _ => id) fun z => ?_
  refine .bind (Q := fun _ => Undisturbed v names) (.attempt hfailed fun _ _ _ => id) fun code => ?_
  refine .bind (starts_resolveConfig o.config hfailed) fun config => .given fun hconfig => ?_
  refine .bind (Q := fun _ => Undisturbed v names) (.attempt hfailed fun _ _ _ => id)
    fun factory => ?_
  refine .bind (Q := fun number y => number = v.nextWorker ∧
    Undisturbed { v with nextWorker := v.nextWorker + 1 } names y) (.lift fun y hy => ?_)
      fun number => .given fun hnumber => ?_
  · have hroster := hy.network.state
    refine ⟨congrArg Roster.nextWorker hroster, hy.work ?_⟩
    rw [← hroster]
    rfl
  refine .bind (Q := fun channel y => channel = names.size ∧
    ∃ f, Undisturbed (v.next .null) (names.push f) y) (.lift fun y hy => ?_)
      fun channel => .given fun hchannel => ?_
  · refine ⟨?_, _, hy.openChannel _⟩
    show y.channels.size = names.size
    rw [← hy.network.named, Array.size_map]
  subst hnumber hchannel
  refine .bind (starts_launch hsize rfl rfl (modest_forWorker hmethods) factory o.version)
    fun _ => .pure fun y hy => ⟨⟨rfl, rfl, hconfig⟩, hy⟩

/-! ## Sessions of a roster -/

/-- The session of a worker. -/
def sessionIn (v : Roster) (id : UInt64) : Option ℕ :=
  (v.terminals.find? (·.1 == id)).map (·.2)

variable {id other : UInt64} {session : ℕ}

lemma Undisturbed.sessionOf? (h : Undisturbed v names y) (id : UInt64) :
    y.state.sessionOf? id = sessionIn v id :=
  congrArg (sessionIn · id) h.network.state

lemma sessionIn_cons : sessionIn { v with terminals := (other, session) :: v.terminals } id =
    if other = id then some session else sessionIn v id := by
  by_cases h : other = id
  · simp [sessionIn, h]
  · simp [sessionIn, h]

lemma sessionIn_filter : sessionIn { v with terminals := v.terminals.filter (·.1 != other) } id =
    if other = id then none else sessionIn v id := by
  unfold sessionIn
  rw [List.find?_filter]
  split
  · next h =>
    subst h
    rw [Option.map_eq_none_iff, List.find?_eq_none]
    simp
  · next h =>
    refine congrArg (Option.map Prod.snd) (congrArg (List.find? · v.terminals) (funext fun p => ?_))
    by_cases hp : p.1 = id
    · simp [hp, Ne.symm h]
    · simp [hp]

/-- A worker without a session has none to be forgotten. -/
lemma filter_terminals_eq_self (h : sessionIn v id = none) :
    v.terminals.filter (·.1 != id) = v.terminals := by
  rw [List.filter_eq_self]
  intro p hp
  have hne := List.find?_eq_none.1 (Option.map_eq_none_iff.1 h) p hp
  simpa using hne

/-- What has become of the roster and of what is named when a worker was to be started: it has the
next number and the next channel, its configuration, and a session if it is to have a terminal. -/
inductive Started (v : Roster) (names : Array (Target → Option HostMethod)) (o : WorkerOptions) :
    Option (Except WorkerError Worker) → Roster → Array (Target → Option HostMethod) → Prop
  | failed {e : WorkerError} {v' : Roster} {names' : Array (Target → Option HostMethod)}
      (hspent : Spent v names v' names') : Started v names o (some (.error e)) v' names'
  | waits (f : Target → Option HostMethod) (config : Value) :
      Started v names o none (v.next config) (names.push f)
  | plain {w : Worker} (f : Target → Option HostMethod) (hid : w.id = v.nextWorker)
      (hchannel : w.channel = names.size) (hconfig : Configured o.config w.config)
      (hterminal : o.terminal = none) :
      Started v names o (some (.ok w)) (v.next w.config) (names.push f)
  | attached {w : Worker} (f : Target → Option HostMethod) (session : ℕ)
      (hid : w.id = v.nextWorker) (hchannel : w.channel = names.size)
      (hconfig : Configured o.config w.config) (hterminal : o.terminal ≠ none) :
      Started v names o (some (.ok w))
        { v.next w.config with terminals := (w.id, session) :: v.terminals }
        ((names.push f).modify w.channel (boundTo session))
  /-- the number has a session already, of a worker that was given it before -/
  | refused {w : Worker} (f : Target → Option HostMethod) (hid : w.id = v.nextWorker)
      (hchannel : w.channel = names.size) (hconfig : Configured o.config w.config)
      (hsession : sessionIn v v.nextWorker ≠ none) :
      Started v names o (some (.ok w)) (v.next w.config) (names.push f)

/-- The main run of a worker begins. -/
lemma undisturbed_begin (h : Undisturbed v names y) (w : Worker) (label code : String)
    (o : WorkerOptions) :
    ∃ main y', ((do
        let mode := o.mode.getD (← get).state.settings.runMode
        let main ← spawn (runTask w label code mode)
        settle
        return some (.ok { w with main := main }) :
        StateM Environment (Option (Except WorkerError Worker))).run y) =
          (some (.ok { w with main := main }), y') ∧ Undisturbed v names y' :=
  ⟨_, _, rfl, (h.spawn (leaves_runTask w label code _)).settle⟩

/-- Whatever comes of it, everybody else keeps what they have. -/
lemma createWorker_started (source : SourceRef) {o : WorkerOptions}
    (hmethods : ∀ m ∈ o.methods, m.2.Modest) (hsize : v.configs.size = names.size)
    (h : Undisturbed v names y) :
    ∃ v' names', Started v names o ((createWorker source o).run y).1 v' names' ∧
      Undisturbed v' names' ((createWorker source o).run y).2 := by
  have hprepared := starts_prepare source hmethods hsize y h
  unfold createWorker
  generalize hrun : (prepare source o).run.run y = r at hprepared
  obtain ⟨e | ⟨w, code⟩, y₁⟩ := r
  · obtain ⟨v', names', hspent, hy₁⟩ := hprepared
    rw [run_bind_of_run hrun]
    exact ⟨v', names', .failed hspent, hy₁.work hy₁.network.state⟩
  obtain ⟨⟨hid, hchannel, hconfig⟩, f, hy₁⟩ := hprepared
  obtain ⟨y₂, hsettle⟩ : ∃ y₂, settle.run y₁ = ((), y₂) := ⟨_, rfl⟩
  have hy₂ : Undisturbed (v.next w.config) (names.push f) y₂ := by
    have hsettled := hy₁.settle
    rwa [hsettle] at hsettled
  rw [run_bind_of_run hrun, run_bind_of_run hsettle, run_bind_of_run (run_get y₂)]
  split
  · exact ⟨_, _, .waits f w.config, hy₂⟩
  obtain ⟨y₃, hserve⟩ : ∃ y₃, (modify (serve w.channel) : StateM Environment Unit).run y₂ =
      ((), y₃) := ⟨_, rfl⟩
  have hy₃ : Undisturbed (v.next w.config) (names.push f) y₃ := by
    obtain rfl : y₂.serve w.channel = y₃ := congrArg Prod.snd hserve
    exact hy₂.serve _
  rw [run_bind_of_run hserve]
  split
  · next terminal hterminal =>
    cases hsession : y₃.state.sessionOf? w.id with
    | none =>
      obtain ⟨session, hattached⟩ : ∃ session, Undisturbed
          { v.next w.config with terminals := (w.id, session) :: v.terminals }
          ((names.push f).modify w.channel (boundTo session))
          ((attachTerminal w terminal).run y₃).2 := ⟨_, hy₃.attach hsession terminal⟩
      generalize hattach : (attachTerminal w terminal).run y₃ = r at hattached
      obtain ⟨b, y₄⟩ := r
      obtain ⟨main, y', hbegin, hy'⟩ := undisturbed_begin hattached w source.label code o
      have hwith : o.terminal ≠ none := by
        rw [hterminal]
        exact Option.some_ne_none _
      rw [run_bind_of_run hattach, hbegin]
      exact ⟨_, _, .attached (w := { w with main := main }) f session hid hchannel hconfig hwith,
        hy'⟩
    | some session =>
      obtain ⟨main, y', hbegin, hy'⟩ := undisturbed_begin hy₃ w source.label code o
      have hheld : sessionIn v v.nextWorker = some session := by
        rw [← hsession, hy₃.sessionOf?, hid]
        rfl
      rw [run_bind_of_run (attachTerminal_of_some hsession terminal), hbegin]
      exact ⟨_, _, .refused (w := { w with main := main }) f hid hchannel hconfig
        (hheld ▸ Option.some_ne_none _), hy'⟩
  · next hterminal =>
    obtain ⟨main, y', hbegin, hy'⟩ := undisturbed_begin hy₃ w source.label code o
    have hwithout : o.terminal = none := by
      cases ho : o.terminal with
      | none => rfl
      | some terminal => exact absurd ho (hterminal terminal)
    rw [hbegin]
    exact ⟨_, _, .plain (w := { w with main := main }) f hid hchannel hconfig hwithout, hy'⟩

end Environment
end WorkerHost
