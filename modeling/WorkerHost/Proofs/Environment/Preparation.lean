import WorkerHost.Proofs.Environment.Terminals

/-!
# The stages of a start

What `prepare` does, in one equation: which stages a start goes through, why it fails at each of
them, and what there is then. As long as nothing was opened, nothing has to go away. From the
methods on there is a channel, and once there is a thread there is a handle; they go away by the
worker's end being dropped, the handle ending the worker, and the host seeing the end of the
worker's messages. What is left of the channel is `Channel.over`, whatever the stage: `run_prepare`.
-/

namespace WorkerHost

/-! ## Channels that are over -/

/-- A host end over which nothing has gone yet. -/
structure HostEndpoint.Fresh (e : HostEndpoint HostMethod) : Prop where
  opened : e.closed = false
  dispatching : e.dispatching = true
  pending : e.pending = []

/-- Adding methods touches nothing else. -/
lemma HostEndpoint.registerAll_eq (e : HostEndpoint HostMethod)
    (methods : List (String × HostMethod)) :
    (e.registerAll methods).2 = { e with handlers := (e.registerAll methods).2.handlers } := by
  induction methods generalizing e with
  | nil => rfl
  | cons entry rest ih =>
    rw [registerAll]
    split
    · next e₁ hregister =>
      rw [(handlers_register hregister).2]
      exact ih _
    · rfl

lemma HostEndpoint.fresh_registerAll (name : String) (methods : List (String × HostMethod)) :
    ((HostEndpoint.new name).registerAll methods).2.Fresh := by
  rw [registerAll_eq]
  exact ⟨rfl, rfl, rfl⟩

/-- A channel over which nothing goes any more: its host end is closed and takes no message, no call
is pending, both ends of the link are gone, and there is no thread. -/
def Channel.over (host : HostEndpoint HostMethod) :
    Channel EnvironmentState HostMethod RunMode Unit :=
  ⟨{ host with closed := true, dispatching := false, pending := [] },
    ⟨⟨[], false, false⟩, ⟨[], false, false⟩⟩, none⟩

namespace EnvironmentState
variable (s : EnvironmentState) (o : WorkerOptions)

/-- The configuration that a worker is to have, and the heap with it. -/
def configure : Option ConfigSource → Except WorkerError (Value × Heap)
  | none => .ok (.null, s.heap)
  | some source => (source.resolve s.files s.heap).mapError .ofConfig

/-- The factory of the interpreter that a worker is to have. -/
def factoryFor : Except WorkerError Factory :=
  s.factory (o.interpreter.getD s.settings.interpreter)

/-- The name of the next worker. -/
def nameFor : String :=
  o.name.getD (Worker.idText s.nextWorker)

/-- The host end of the next worker's channel with the methods that it takes, and the failure if one
is refused. -/
def hostFor : Except ChannelError Unit × HostEndpoint HostMethod :=
  (HostEndpoint.new (s.nameFor o)).registerAll (HostMethod.forWorker s.store.isSome o.methods)

/-- The state once the next worker has been given its number and a channel. -/
def opened (h : Heap) : EnvironmentState :=
  { s with heap := h, nextWorker := s.nextWorker + 1, workers := s.workers.push default }

end EnvironmentState

namespace Environment
variable {source : SourceRef} {o : WorkerOptions} {y y' : Environment} {e : WorkerError}
  {s : EnvironmentState} {host : HostEndpoint HostMethod}

/-- There is one channel more. -/
def withChannel (y : Environment) (s : EnvironmentState)
    (c : Channel EnvironmentState HostMethod RunMode Unit) : Environment :=
  { y with state := s, channels := y.channels.push c }

lemma getElem?_withChannel (c : Channel EnvironmentState HostMethod RunMode Unit) :
    (y.withChannel s c).channels[y.channels.size]? = some c :=
  Array.getElem?_push_size

lemma setChannel_withChannel (c d : Channel EnvironmentState HostMethod RunMode Unit) :
    (y.withChannel s c).setChannel y.channels.size d = y.withChannel s d := by
  have hchannels : (y.channels.push c).setIfInBounds y.channels.size d = y.channels.push d := by
    refine Array.ext_getElem? fun i => ?_
    grind
  rw [Network.setChannel]
  exact congrArg (fun cs => { y with state := s, channels := cs }) hchannels

lemma run_dropWorker (c : Channel EnvironmentState HostMethod RunMode Unit) :
    (dropWorker y.channels.size).run (y.withChannel s c) = ((), y.withChannel s c.dropWorker) := by
  have hchannels : (y.channels.push c).modify y.channels.size (·.dropWorker) =
      y.channels.push c.dropWorker := by
    refine Array.ext_getElem? fun i => ?_
    grind
  exact congrArg (fun cs => ((), { y with state := s, channels := cs })) hchannels

/-- The host sees that no message will come from a worker that is gone, and closes its end if that
has not happened yet. -/
lemma run_dispatch (host : HostEndpoint HostMethod) (hdispatching : host.dispatching = true)
    (hpending : host.pending = []) :
    (dispatch y.channels.size).run (y.withChannel s
        ⟨host, ⟨⟨[], !host.closed, false⟩, ⟨[], false, true⟩⟩, none⟩) =
      ((), y.withChannel s (.over host)) := by
  have hfinish : host.finish ⟨⟨[], !host.closed, false⟩, ⟨[], false, true⟩⟩ =
      ([], (Channel.over host).host, (Channel.over host).link) := by
    obtain ⟨name, nextId, closed, dispatching, pending, handlers, refs⟩ := host
    cases hpending
    cases closed <;> rfl
  have hdispatch : Network.dispatch? environmentPrograms (y.withChannel s
        ⟨host, ⟨⟨[], !host.closed, false⟩, ⟨[], false, true⟩⟩, none⟩) y.channels.size =
      some (y.withChannel s (.over host)) := by
    unfold Network.dispatch?
    rw [getElem?_withChannel]
    simp only [Option.bind_eq_bind, Option.bind_some, hdispatching, guard_true, Queue.receive,
      hfinish, setChannel_withChannel]
    rfl
  show ((), Option.getD _ _) = _
  rw [hdispatch]
  rfl

/-- The end of a handle closes the channel and forgets the session under the number. -/
lemma run_dropHandle (hhost : host.Fresh) {w : Worker} (hchannel : w.channel = y.channels.size) :
    (dropHandle w).run (y.withChannel s ⟨host, Link.new.dropWorker, none⟩) =
      ((), y.withChannel (s.forgetTerminal w.id)
        ⟨{ host with closed := true }, ⟨⟨[], false, false⟩, ⟨[], false, true⟩⟩, none⟩) := by
  have hclose : Network.closeHost (y.withChannel s ⟨host, Link.new.dropWorker, none⟩) w.channel =
      y.withChannel s
        ⟨{ host with closed := true }, ⟨⟨[], false, false⟩, ⟨[], false, true⟩⟩, none⟩ := by
    unfold Network.closeHost
    rw [hchannel, getElem?_withChannel]
    simp only [HostEndpoint.close, hhost.opened, hhost.pending, setChannel_withChannel]
    rfl
  have hmodify : (modify (·.closeHost w.channel) : StateM Environment Unit).run
      (y.withChannel s ⟨host, Link.new.dropWorker, none⟩) = ((), _) :=
    congrArg (Prod.mk ()) hclose
  unfold dropHandle
  rw [run_bind_of_run hmodify]
  rfl

/-! ## Steps that succeed or fail -/

lemma run_bind_ok {α β : Type} {x : StartM α} {k : α → StartM β} {a : α}
    (h : x.run.run y = (.ok a, y')) : (x >>= k).run.run y = (k a).run.run y' := by
  rw [ExceptT.run_bind, run_bind_of_run h]

lemma run_bind_error {α β : Type} {x : StartM α} {k : α → StartM β}
    (h : x.run.run y = (.error e, y')) : (x >>= k).run.run y = (.error e, y') := by
  rw [ExceptT.run_bind, run_bind_of_run h]
  rfl

lemma run_get_bind {α : Type} (k : Environment → StartM α) (y : Environment) :
    ((get : StartM Environment) >>= k).run.run y = (k y).run.run y := rfl

lemma run_lift_bind {α β : Type} (x : StateM Environment α) (k : α → StartM β) (y : Environment) :
    ((liftM x : StartM α) >>= k).run.run y = (k (x.run y).1).run.run (x.run y).2 := rfl

lemma run_attempt_ok {ε α : Type} (reason : ε → WorkerError) {x : Except ε α} {a : α}
    (h : x = .ok a) (y : Environment) : (attempt reason x).run.run y = (.ok a, y) := by
  rw [h]
  rfl

lemma run_attempt_error {ε α : Type} (reason : ε → WorkerError) {x : Except ε α} {err : ε}
    (h : x = .error err) (y : Environment) :
    (attempt reason x).run.run y = (.error (reason err), y) := by
  rw [h]
  rfl

lemma run_ifFails_ok {α : Type} {x : StartM α} {a : α} (drop : StateM Environment Unit)
    (h : x.run.run y = (.ok a, y')) : (ifFails drop x).run.run y = (.ok a, y') := by
  unfold ifFails
  rw [ExceptT.run_mk, run_bind_of_run h]
  rfl

lemma run_ifFails_error {α : Type} {x : StartM α} {drop : StateM Environment Unit}
    {z : Environment} (h : x.run.run y = (.error e, y')) (hdrop : drop.run y' = ((), z)) :
    (ifFails drop x).run.run y = (.error e, z) := by
  unfold ifFails
  rw [ExceptT.run_mk, run_bind_of_run h]
  dsimp only
  rw [run_bind_of_run hdrop]
  rfl

lemma run_resolveConfig (c : Option ConfigSource) (y : Environment) :
    (resolveConfig c).run.run y =
      match y.state.configure c with
      | .ok (v, h) => (.ok v, { y with state := { y.state with heap := h } })
      | .error e => (.error e, y) := by
  cases c with
  | none => rfl
  | some c =>
    unfold resolveConfig EnvironmentState.configure
    dsimp only
    rw [run_get_bind]
    cases c.resolve y.state.files y.state.heap with
    | ok r => rfl
    | error e => rfl

/-! ## The stages -/

/-- What there is once the worker has been booted. -/
def booted (y : Environment) (s : EnvironmentState) (context : WorkerContext) (name : String)
    (host : HostEndpoint HostMethod) : Environment :=
  beginWork y.channels.size (y.withChannel (s.updateWorker y.channels.size fun _ => context)
    ⟨host, .new, some ⟨.new name, [], .idle⟩⟩)

lemma run_bootThread {w : Worker} (hchannel : w.channel = y.channels.size) (factory : Factory)
    (version : Option String) (c : Channel EnvironmentState HostMethod RunMode Unit) :
    (bootThread w factory version).run.run (y.withChannel s c) =
      match s.bootWorker w.name factory version w.config with
      | (.error e, s) => (.error e, y.withChannel s c)
      | (.ok context, s) => (.ok (), beginWork y.channels.size
          (y.withChannel (s.updateWorker y.channels.size fun _ => context) c)) := by
  have hcontext : (ExceptT.mk (onState (·.bootWorker w.name factory version w.config)) :
      StartM WorkerContext).run.run (y.withChannel s c) =
        ((s.bootWorker w.name factory version w.config).1,
          y.withChannel (s.bootWorker w.name factory version w.config).2 c) := rfl
  unfold bootThread
  rw [← hchannel]
  generalize s.bootWorker w.name factory version w.config = r at hcontext ⊢
  obtain ⟨e | context, s'⟩ := r
  · exact run_bind_error hcontext
  · exact run_bind_ok hcontext

/-- A launch that fails leaves a channel that is over, and if there was a handle then also the
session under its number is forgotten. -/
lemma run_launch {w : Worker} (hchannel : w.channel = y.channels.size)
    (methods : List (String × HostMethod)) (factory : Factory) (version : Option String) :
    (launch w methods factory version).run.run (y.withChannel s ⟨.new w.name, .new, none⟩) =
      match (HostEndpoint.new w.name).registerAll methods with
      | (.error e, host) => (.error (.channel e), y.withChannel s (.over host))
      | (.ok (), host) =>
        match s.noThread with
        | some reason => (.error (.spawnFailed reason), y.withChannel s (.over host))
        | none =>
          match s.bootWorker w.name factory version w.config with
          | (.error e, s) => (.error e, y.withChannel (s.forgetTerminal w.id) (.over host))
          | (.ok context, s) => (.ok (), y.booted s context w.name host) := by
  have hfresh := HostEndpoint.fresh_registerAll w.name methods
  have hregister := run_registerMethods (getElem?_withChannel ⟨.new w.name, .new, none⟩) methods
    (y := y.withChannel s ⟨.new w.name, .new, none⟩)
  rw [setChannel_withChannel] at hregister
  generalize (HostEndpoint.new w.name).registerAll methods = r at hfresh hregister
  obtain ⟨refused, host⟩ := r
  -- the worker's end is dropped, and the host sees it
  have hdropped (s : EnvironmentState) : (dispatch y.channels.size).run
      (y.withChannel s ⟨host, Link.new.dropWorker, none⟩) = ((), y.withChannel s (.over host)) := by
    have hseen := run_dispatch (y := y) (s := s) host hfresh.dispatching hfresh.pending
    rw [hfresh.opened] at hseen
    exact hseen
  unfold launch
  rw [hchannel]
  cases refused with
  | error e =>
    exact run_ifFails_error (run_bind_error (run_ifFails_error (run_bind_error hregister)
      (run_dropWorker _))) (hdropped s)
  | ok u =>
    have hthread := run_startThread (getElem?_withChannel ⟨host, .new, none⟩) w.name
      (y := y.withChannel s ⟨host, .new, none⟩)
    have hstate : (y.withChannel s ⟨host, .new, none⟩).state.noThread = s.noThread := rfl
    rw [hstate, setChannel_withChannel] at hthread
    cases hnone : s.noThread with
    | some reason =>
      rw [hnone] at hthread
      exact run_ifFails_error (run_bind_error (run_ifFails_error
        ((run_bind_ok hregister).trans hthread) (run_dropWorker _))) (hdropped s)
    | none =>
      rw [hnone] at hthread
      have hbegun := run_ifFails_ok (dropWorker y.channels.size)
        ((run_bind_ok (k := fun _ => startThread y.channels.size w.name) hregister).trans hthread)
      have hboot := run_bootThread (s := s) hchannel factory version
        ⟨host, .new, some ⟨.new w.name, [], .idle⟩⟩
      dsimp only
      generalize s.bootWorker w.name factory version w.config = r at hboot ⊢
      obtain ⟨e | context, s'⟩ := r
      · have hdrop : (do dropWorker y.channels.size; dropHandle w : StateM Environment Unit).run
            (y.withChannel s' ⟨host, .new, some ⟨.new w.name, [], .idle⟩⟩) = ((), _) :=
          (run_bind_of_run (run_dropWorker _)).trans (run_dropHandle hfresh hchannel)
        exact run_ifFails_error ((run_bind_ok hbegun).trans (run_ifFails_error hboot hdrop))
          (run_dispatch { host with closed := true } hfresh.dispatching hfresh.pending)
      · exact run_ifFails_ok _ ((run_bind_ok hbegun).trans (run_ifFails_ok _ hboot))

/-- What a start does up to the worker's first computation. -/
theorem run_prepare (source : SourceRef) (o : WorkerOptions) (y : Environment) :
    (prepare source o).run.run y =
      match source.load y.state.files with
      | .error e => (.error (.fetch e), y)
      | .ok code =>
        match y.state.configure o.config with
        | .error e => (.error e, y)
        | .ok (config, h) =>
          match y.state.factoryFor o with
          | .error e => (.error e, { y with state := { y.state with heap := h } })
          | .ok factory =>
            match y.state.hostFor o with
            | (.error e, host) =>
              (.error (.channel e), y.withChannel (y.state.opened h) (.over host))
            | (.ok (), host) =>
              match y.state.noThread with
              | some reason =>
                (.error (.spawnFailed reason), y.withChannel (y.state.opened h) (.over host))
              | none =>
                match (y.state.opened h).bootWorker (y.state.nameFor o) factory o.version config with
                | (.error e, s) =>
                  (.error e, y.withChannel (s.forgetTerminal y.state.nextWorker) (.over host))
                | (.ok context, s) =>
                  (.ok (⟨y.state.nextWorker, y.state.nameFor o, y.channels.size, config, 0⟩, code),
                    y.booted s context (y.state.nameFor o) host) := by
  unfold prepare
  rw [run_get_bind]
  cases hload : source.load y.state.files with
  | error e => exact run_bind_error (run_attempt_error _ hload y)
  | ok code =>
  refine (run_bind_ok (run_attempt_ok _ hload y)).trans ?_
  have hconfig := run_resolveConfig o.config y
  cases hconfigure : y.state.configure o.config with
  | error e =>
    rw [hconfigure] at hconfig
    exact run_bind_error hconfig
  | ok r =>
  obtain ⟨config, h⟩ := r
  rw [hconfigure] at hconfig
  refine (run_bind_ok hconfig).trans ?_
  cases hfound : y.state.factoryFor o with
  | error e => exact run_bind_error (run_attempt_error _ hfound _)
  | ok factory =>
  refine (run_bind_ok (run_attempt_ok _ hfound _)).trans ?_
  -- the number is taken and the channel is opened
  let w : Worker := ⟨y.state.nextWorker, y.state.nameFor o, y.channels.size, config, 0⟩
  let methods := HostMethod.forWorker y.state.store.isSome o.methods
  show (launch w methods factory o.version >>= fun _ => pure (w, code)).run.run
    (y.withChannel (y.state.opened h) ⟨.new w.name, .new, none⟩) = _
  have hlaunch := run_launch (s := y.state.opened h) (w := w) rfl methods factory o.version
  have hhost : (HostEndpoint.new w.name).registerAll methods = y.state.hostFor o := rfl
  have hnoThread : (y.state.opened h).noThread = y.state.noThread := rfl
  have hboot : (y.state.opened h).bootWorker w.name factory o.version w.config =
    (y.state.opened h).bootWorker (y.state.nameFor o) factory o.version config := rfl
  rw [hhost, hnoThread, hboot] at hlaunch
  generalize y.state.hostFor o = r at hlaunch ⊢
  obtain ⟨e | u, host⟩ := r
  · exact run_bind_error hlaunch
  generalize y.state.noThread = r at hlaunch ⊢
  cases r with
  | some reason => exact run_bind_error hlaunch
  | none =>
    dsimp only at hlaunch ⊢
    generalize (y.state.opened h).bootWorker _ factory o.version config = r at hlaunch ⊢
    obtain ⟨e | context, s⟩ := r
    · exact run_bind_error hlaunch
    · exact run_bind_ok hlaunch

end Environment
end WorkerHost
