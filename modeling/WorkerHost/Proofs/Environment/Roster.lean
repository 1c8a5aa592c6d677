import WorkerHost.Environment.Workers
import WorkerHost.Proofs.Channel.Unchanged
import WorkerHost.Proofs.Environment.Interpreter

/-!
# Runs and the roster of workers

Which numbers workers are given, which sessions they have, and which configurations, is decided by
the operations of an environment. No run, neither its part on the host nor that in the worker, and
no method that every worker can call changes any of it: `leaves_runTask`, `leaves_callable`,
`HostMethod.leaves_serve`.
-/

namespace WorkerHost

/-- What there is of workers. -/
structure Roster where
  /-- the number of the next worker -/
  nextWorker : UInt64
  /-- the sessions of the workers that have a terminal -/
  terminals : List (UInt64 × ℕ)
  /-- the configurations that the callbacks in the workers are given, channel by channel -/
  configs : Array Value

namespace EnvironmentState

def roster (s : EnvironmentState) : Roster :=
  ⟨s.nextWorker, s.terminals, s.workers.map (·.config)⟩

lemma roster_updateWorker (s : EnvironmentState) (channel : ℕ) {f : WorkerContext → WorkerContext}
    (hconfig : ∀ w, (f w).config = w.config) : (s.updateWorker channel f).roster = s.roster := by
  have hconfigs : (s.workers.modify channel f).map (·.config) = s.workers.map (·.config) := by
    refine Array.ext_getElem? fun i => ?_
    rw [Array.getElem?_map, Array.getElem?_map, Array.getElem?_modify]
    split
    · rw [Option.map_map]
      exact congrArg (Option.map · _) (funext hconfig)
    · rfl
  exact congrArg (Roster.mk _ _) hconfigs

end EnvironmentState

open EnvironmentState (roster)

section
variable {Q α : Type} {R : Q → Type}

/-- A step that shows no change of the roster. -/
lemma leaves_step {x : Task EnvironmentState Q R α}
    (h : ∀ s, ∃ a s', x s = .done a s' ∧ s'.roster = s.roster) : x.Leaves roster :=
  Task.leaves_of_done h

/-- A change of the rest of the state. -/
lemma leaves_modifyGet {f : EnvironmentState → α × EnvironmentState}
    (h : ∀ s, (f s).2.roster = s.roster) :
    (modifyGet f : Task EnvironmentState Q R α).Leaves roster :=
  leaves_step fun s => ⟨(f s).1, (f s).2, rfl, h s⟩

lemma leaves_pure (a : α) : (pure a : Task EnvironmentState Q R α).Leaves roster :=
  (Task.leaves roster).pure a

end

/-! ## Workers -/

lemma leaves_overlooks :
    (Task.leaves roster : MonadRel (WorkerTask EnvironmentState) _).Overlooks roster where
  call _ _ := Task.leaves_ask _
  step := Task.leaves_of_done

/-- What happens in a worker shows in its own context, the heap, the log and the mentions. -/
lemma besideWorker_roster (channel : ℕ) : EnvironmentState.BesideWorker channel roster where
  heap _ _ := rfl
  log _ _ := rfl
  mentions _ _ := rfl
  worker s _ hconfig := s.roster_updateWorker channel hconfig

lemma leaves_callable (channel : ℕ) (k : RunMode ⊕ Function) (args : List Value) :
    ((WorkerContext.programs channel).callable k args).Leaves roster := by
  cases k with
  | inl mode => exact leaves_overlooks.serve (besideWorker_roster channel) mode args
  | inr f =>
    refine .bind (leaves_overlooks.function (fun _ _ => rfl) args f.body) fun r => ?_
    cases r <;> exact leaves_pure _

lemma leaves_becomeReady (channel : ℕ) : (WorkerContext.becomeReady channel).Leaves roster := by
  have hstage := leaves_overlooks.stage (besideWorker_roster channel)
  refine .bind (leaves_overlooks.look _) fun s => .bind ?_ fun run => ?_
  · exact leaves_modifyGet fun s => s.roster_updateWorker channel fun _ => rfl
  · exact ((hstage _).parts .sync run).ensureReady

/-! ## Methods of the host -/

lemma leaves_callWorker (channel : ℕ) (target : Target) (args : List Value) :
    (callWorker channel target args : HostTask EnvironmentState CallOutcome).Leaves roster :=
  Task.leaves_ask _

namespace EnvironmentState
variable {α : Type} (s : EnvironmentState)

lemma roster_onStore (f : Store → Heap → FileTree → α × Store × Heap × FileTree) :
    (s.onStore f).2.roster = s.roster := by
  unfold onStore
  split <;> rfl

lemma roster_onSession (session : ℕ) (f : Session → α × Session) (dflt : α) :
    (s.onSession session f dflt).2.roster = s.roster := by
  unfold onSession
  split <;> rfl

end EnvironmentState

namespace HostMethod

/-- Whatever a method of the worker's creator does, it leaves the roster alone. -/
def Modest : HostMethod → Prop
  | custom program => ∀ channel args, (program channel args).Leaves roster
  | _ => True

lemma leaves_withStore (f : StoreAction) : (withStore f).Leaves roster :=
  .bind (leaves_modifyGet fun s => s.roster_onStore f) fun _ => leaves_pure _

lemma leaves_withKey (args : List Value) (f : String → StoreAction) :
    (withKey args f).Leaves roster := by
  unfold withKey
  split
  · exact leaves_withStore _
  · exact leaves_pure _

/-- No method but those of a worker's creator can change the roster. -/
theorem leaves_serve {m : HostMethod} (h : m.Modest) (channel : ℕ) (args : List Value) :
    (m.serve channel args).Leaves roster := by
  cases m with
  | custom program => exact h channel args
  | sleep => exact .bind (Task.leaves_ask _) fun _ => leaves_pure _
  | requestPermission => exact .bind (leaves_step fun _ => ⟨_, _, rfl, rfl⟩) fun _ => leaves_pure _
  | notify => exact .bind (leaves_modifyGet fun _ => rfl) fun _ => leaves_pure _
  | write => exact .bind (leaves_modifyGet fun _ => rfl) fun _ => leaves_pure _
  | read => exact leaves_pure _
  | storeGet | storeSet | storeDelete => exact leaves_withKey _ _
  | storeKeys | storeSync => exact leaves_withStore _
  | terminalRead session =>
    refine .bind (leaves_modifyGet fun s => s.roster_onSession session _ 0) fun read => ?_
    refine .bind (Task.leaves_ask _) fun line => ?_
    split <;> exact leaves_pure _
  | terminalWrite session =>
    simp only [serve]
    split
    · exact .bind (leaves_modifyGet fun s => s.roster_onSession session _ ()) fun _ =>
        leaves_pure _
    · exact leaves_pure _

end HostMethod

/-! ## Runs driven by the host -/

lemma leaves_hostScope (config : Value) (role : Role) :
    CallbackScope.Lockstep (Task.leaves roster) ((hostBinding config).scope role)
      ((hostBinding config).scope role) where
  role := rfl
  config := rfl
  hasWorker := rfl
  log _ := leaves_modifyGet fun _ => rfl
  display _ := leaves_step fun _ => ⟨_, _, rfl, rfl⟩
  field? _ _ := leaves_step fun _ => ⟨_, _, rfl, rfl⟩
  interpreter? := leaves_pure _
  execute _ := leaves_pure _
  stateText? _ := leaves_pure _
  change _ _ _ _ _ := leaves_modifyGet fun _ => rfl

lemma leaves_hostStage (config : Value) : (hostBinding config).stage.Lockstep (Task.leaves roster)
    (hostBinding config).stage where
  get := leaves_step fun _ => ⟨_, _, rfl, rfl⟩
  isReady := leaves_step fun _ => ⟨_, _, rfl, rfl⟩
  modify _ := leaves_modifyGet fun _ => rfl
  callbacks _ := leaves_step fun _ => ⟨_, _, rfl, rfl⟩
  code _ := leaves_step fun _ => ⟨_, _, rfl, rfl⟩
  callbackName := rfl
  invoke phase _ _ := .bind (leaves_step fun _ => ⟨_, _, rfl, rfl⟩) fun role =>
    (leaves_hostScope config role).invoke phase
  execute _ _ := leaves_pure _
  notify _ := leaves_modifyGet fun _ => rfl

lemma leaves_drive (channel : ℕ) (config : Value) (source code : String) (mode : RunMode) :
    (drive channel config source code mode).Leaves roster := by
  show (Task.leaves roster).rel _ (drive channel config source code mode)
  refine (Task.leaves roster).bind (leaves_modifyGet fun _ => rfl) fun run => ?_
  have hparts := (leaves_hostStage config).parts mode run
  refine (Task.leaves roster).bind hparts.ensureReadyAsync fun _ => hparts.around ?_
  exact .bind (leaves_callWorker _ _ _) fun _ => leaves_pure _

/-- No run of a worker changes the roster. -/
theorem leaves_runTask (w : Worker) (source code : String) (mode : RunMode) :
    (Environment.runTask w source code mode).Leaves roster :=
  .bind (leaves_drive _ _ _ _ _) fun _ => leaves_pure _

end WorkerHost
