import WorkerHost.Proofs.Environment.History
import WorkerHost.Proofs.Value.FromJson

/-!
# Starts that fail

A start fails at one of its stages: the source text, the configuration, the interpreter, the
methods, the thread, the code that is shipped, the plugins, or the making of the interpreter. What
it has changed by then is little (`Leftovers`), and the channel that may have been opened for it is
over at both ends. So a worker that does not start leaves nothing behind but one message to the
user: `failed_start_leaves_nothing`.
-/

namespace WorkerHost

/-! ## What has changed -/

/-- What a start that failed has done to the state: there may be new objects, new plugins may have
mentioned callbacks, and a number and a place for a context may be used up. -/
structure Leftovers (s s' : EnvironmentState) : Prop where
  state_eq : s' = { s with
    heap := s'.heap
    nextWorker := s'.nextWorker
    workers := s'.workers
    mentions := s'.mentions
    nextGroup := s'.nextGroup }
  heap : s.heap.Grows s'.heap
  group : s.nextGroup ≤ s'.nextGroup
  mentions : ∃ added, s'.mentions.known = added ++ s.mentions.known ∧
    ∀ m ∈ added, s.nextGroup ≤ m.1.1 ∧ m.1.1 < s'.nextGroup

namespace Plugin
variable (r : Registry Callback) (ms : Mentions) (group : ℕ)

lemma mentions_hook (spec : HookSpec) : ∃ added,
    (ms.hook group spec).2.known = added ++ ms.known ∧ ∀ m ∈ added, m.1.1 = group := by
  unfold Mentions.hook
  split
  · exact ⟨[], rfl, List.forall_mem_nil _⟩
  · split
    · exact ⟨[], rfl, List.forall_mem_nil _⟩
    · exact ⟨[_], rfl, List.forall_mem_singleton.2 rfl⟩

lemma mentions_change (add : Bool) (role : Role) (phase : Phase) (spec : HookSpec) :
    (r.change ms add role phase group spec).2.2 = (ms.hook group spec).2 := by
  unfold Registry.change
  dsimp only
  split <;> rfl

/-- The hooks of a plugin are mentioned in its group. -/
lemma mentions_installHooks (hooks : List PluginHook) : ∃ added,
    (installHooks r ms group hooks).2.2.known = added ++ ms.known ∧ ∀ m ∈ added, m.1.1 = group := by
  induction hooks generalizing r ms with
  | nil => exact ⟨[], rfl, List.forall_mem_nil _⟩
  | cons hook rest ih =>
    unfold installHooks
    split
    · split
      · exact ⟨[], rfl, List.forall_mem_nil _⟩
      next phase _ =>
      obtain ⟨added, hadded, hgroup⟩ := mentions_hook ms group hook.hook
      rw [← mentions_change r ms group true (hook.role.getD r.role) phase] at hadded
      split
      · next r' ms' hchange =>
        rw [hchange] at hadded
        obtain ⟨later, hlater, hgroup'⟩ := ih r' ms'
        refine ⟨later ++ added, by rw [hlater, hadded, List.append_assoc], fun m hm => ?_⟩
        exact (List.mem_append.1 hm).elim (hgroup' m) (hgroup m)
      · next hchange =>
        rw [hchange] at hadded
        exact ⟨added, hadded, hgroup⟩
    · exact ih r ms

/-- Plugins are given new groups. -/
lemma mentions_installAll (plugins : List Plugin) : ∃ added,
    group ≤ (installAll r ms group plugins).2.2.2 ∧
    (installAll r ms group plugins).2.2.1.known = added ++ ms.known ∧
    ∀ m ∈ added, group ≤ m.1.1 ∧ m.1.1 < (installAll r ms group plugins).2.2.2 := by
  induction plugins generalizing r ms group with
  | nil => exact ⟨[], le_rfl, rfl, List.forall_mem_nil _⟩
  | cons p rest ih =>
    obtain ⟨added, hadded, hgroup⟩ := mentions_installHooks r ms group p.hooks
    have hinstalled {result : Except HookError Unit} {r' : Registry Callback} {ms' : Mentions}
        (h : p.install r ms group = (result, r', ms')) : ms'.known = added ++ ms.known :=
      (congrArg (·.2.2.known) h).symm.trans hadded
    unfold installAll
    split
    · next r' ms' hinstall =>
      obtain ⟨later, hle, hlater, hgroup'⟩ := ih r' ms' (group + 1)
      refine ⟨later ++ added, by omega, ?_, fun m hm => ?_⟩
      · rw [hlater, hinstalled hinstall, List.append_assoc]
      rcases List.mem_append.1 hm with hm | hm
      · have hbounds := hgroup' m hm
        omega
      · have hsame := hgroup m hm
        omega
    · next e r' ms' hinstall =>
      refine ⟨added, Nat.le_succ _, hinstalled hinstall, fun m hm => ?_⟩
      have hsame := hgroup m hm
      dsimp only
      omega

end Plugin

namespace EnvironmentState
variable {s s' : EnvironmentState} {o : WorkerOptions} {config : Value} {h h' : Heap}
  {e : WorkerError}

/-- Nothing is mentioned. -/
lemma leftovers_of_grows (hgrows : s.heap.Grows h) (n : UInt64) (contexts : Array WorkerContext) :
    Leftovers s { s with heap := h, nextWorker := n, workers := contexts } :=
  ⟨rfl, hgrows, le_rfl, [], rfl, List.forall_mem_nil _⟩

lemma grows_parseConfig {text : String} {format : ConfigFormat} {url : Option String}
    (hparse : parseConfig h text format url = .ok (config, h')) : h.Grows h' := by
  unfold parseConfig at hparse
  split at hparse
  · next d _ =>
    injection hparse with hparse
    have hgrows := h.grows_ofJson d
    rwa [hparse] at hgrows
  · cases hparse

/-- A configuration adds to the heap, and leaves what is there. -/
lemma grows_configure {c : Option ConfigSource} (hc : s.configure c = .ok (config, h)) :
    s.heap.Grows h := by
  cases c with
  | none =>
    cases hc
    exact .refl _
  | some c =>
  have hresolve : c.resolve s.files s.heap = .ok (config, h) := of_mapError_eq_ok hc
  cases c with
  | value v =>
    cases hresolve
    exact .refl _
  | inline text format => exact grows_parseConfig (of_mapError_eq_ok hresolve)
  | url u =>
    obtain ⟨text, -, hparse⟩ := bind_eq_ok.1 hresolve
    exact grows_parseConfig (of_mapError_eq_ok hparse)

/-- A context that is not made leaves mentions at most. -/
lemma leftovers_bootWorker {name : String} {factory : Factory} {version : Option String}
    (he : s.bootWorker name factory version config = (.error e, s')) :
    Leftovers s s' ∧ s'.heap = s.heap ∧ s'.nextWorker = s.nextWorker ∧ s'.workers = s.workers := by
  unfold bootWorker at he
  dsimp only at he
  split at he
  · cases he
    exact ⟨leftovers_of_grows (.refl _) _ _, rfl, rfl, rfl⟩
  next registry _ =>
  obtain ⟨added, hle, hadded, hgroup⟩ := Plugin.mentions_installAll registry s.mentions
    s.nextGroup s.plugins
  have hleft : Leftovers s { s with
      mentions := (Plugin.installAll registry s.mentions s.nextGroup s.plugins).2.2.1
      nextGroup := (Plugin.installAll registry s.mentions s.nextGroup s.plugins).2.2.2 } :=
    ⟨rfl, .refl _, hle, added, hadded, hgroup⟩
  split at he
  · cases he
    exact ⟨hleft, rfl, rfl, rfl⟩
  · split at he
    · cases he
      exact ⟨hleft, rfl, rfl, rfl⟩
    · cases he

/-- The sessions are only changed where there is one to forget. -/
lemma forgetTerminal_eq_self {n : UInt64} (h : s.sessionOf? n = none) :
    s.forgetTerminal n = s := by
  have hkeep : s.terminals.filter (·.1 != n) = s.terminals :=
    Environment.filter_terminals_eq_self (v := s.roster) h
  calc
    s.forgetTerminal n = { s with terminals := s.terminals.filter (·.1 != n) } := rfl
    _ = s := by rw [hkeep]

end EnvironmentState

namespace Environment
variable {n : ℕ} {ws : List Worker} {log : List TerminalEvent} {source : SourceRef}
  {o : WorkerOptions} {y y' z : Environment} {e : WorkerError}

/-! ## Starts -/

/-- A start whose preparation goes well does not fail any more. -/
lemma createWorker_ne_error {w : Worker} {code : String}
    (hprepare : (prepare source o).run.run y = (.ok (w, code), z)) :
    ((createWorker source o).run y).1 ≠ some (.error e) := by
  unfold createWorker
  obtain ⟨z₁, hsettle⟩ : ∃ z₁, settle.run z = ((), z₁) := ⟨_, rfl⟩
  rw [run_bind_of_run hprepare, run_bind_of_run hsettle, run_bind_of_run (run_get z₁)]
  split
  · exact nofun
  obtain ⟨z₂, hserve⟩ : ∃ z₂, (modify (serve w.channel) : StateM Environment Unit).run z₁ =
      ((), z₂) := ⟨_, rfl⟩
  rw [run_bind_of_run hserve]
  split
  · next terminal _ =>
    obtain ⟨attached, z₃, hattach⟩ : ∃ attached z₃,
        (attachTerminal w terminal).run z₂ = (attached, z₃) := ⟨_, _, rfl⟩
    rw [run_bind_of_run hattach]
    exact nofun
  · exact nofun

/-- A start fails exactly if its preparation does, which is then shown to the user. -/
lemma createWorker_error_iff : (createWorker source o).run y = (some (.error e), y') ↔
    ∃ z, (prepare source o).run.run y = (.error e, z) ∧
      y' = { z with state := z.state.note ("Failed to start worker: " ++ e.message) } := by
  generalize hprepare : (prepare source o).run.run y = result
  obtain ⟨e' | ⟨w, code⟩, z⟩ := result
  · have hcreate : (createWorker source o).run y = (some (.error e'),
        { z with state := z.state.note ("Failed to start worker: " ++ e'.message) }) := by
      unfold createWorker
      rw [run_bind_of_run hprepare]
      rfl
    rw [hcreate]
    constructor
    · intro heq
      cases heq
      exact ⟨z, rfl, rfl⟩
    · rintro ⟨_, heq, rfl⟩
      cases heq
      rfl
  · constructor
    · exact fun heq => absurd (congrArg Prod.fst heq) (createWorker_ne_error hprepare)
    · rintro ⟨_, heq, -⟩
      cases heq

/-- What there is after a preparation that failed: before a channel is opened the environment is as
it was but for new objects; from then on there is a channel, and it is over. -/
inductive Remains (y : Environment) : Environment → Prop
  | nothing {s : EnvironmentState} (hleft : Leftovers y.state s)
      (hnumber : s.nextWorker = y.state.nextWorker) (hworkers : s.workers = y.state.workers) :
      Remains y { y with state := s }
  | channel {s : EnvironmentState} (hleft : Leftovers y.state s)
      (hnumber : s.nextWorker = y.state.nextWorker + 1)
      (hworkers : s.workers = y.state.workers.push default) (host : HostEndpoint HostMethod) :
      Remains y (y.withChannel s (.over host))

/-- Whatever the stage at which it fails. -/
lemma remains_of_prepare (hnew : y.state.sessionOf? y.state.nextWorker = none)
    (hfailed : (prepare source o).run.run y = (.error e, z)) : Remains y z := by
  have hopened {h : Heap} (hgrows : y.state.heap.Grows h) : Leftovers y.state (y.state.opened h) :=
    EnvironmentState.leftovers_of_grows hgrows _ _
  rw [run_prepare] at hfailed
  split at hfailed
  · cases hfailed
    exact .nothing (EnvironmentState.leftovers_of_grows (.refl _) _ _) rfl rfl
  split at hfailed
  · cases hfailed
    exact .nothing (EnvironmentState.leftovers_of_grows (.refl _) _ _) rfl rfl
  next config h hconfig =>
  have hgrows := EnvironmentState.grows_configure hconfig
  split at hfailed
  · cases hfailed
    exact .nothing (EnvironmentState.leftovers_of_grows hgrows _ _) rfl rfl
  split at hfailed
  · cases hfailed
    exact .channel (hopened hgrows) rfl rfl _
  split at hfailed
  · cases hfailed
    exact .channel (hopened hgrows) rfl rfl _
  split at hfailed
  · next s hboot =>
    obtain ⟨hleft, hheap, hnumber, hworkers⟩ := EnvironmentState.leftovers_bootWorker hboot
    cases hfailed
    have hterminals : s.terminals = y.state.terminals := congrArg (·.terminals) hleft.state_eq
    have hnone : s.sessionOf? y.state.nextWorker = none := by
      rw [← hnew, EnvironmentState.sessionOf?, hterminals]
      rfl
    rw [EnvironmentState.forgetTerminal_eq_self hnone]
    refine .channel ⟨?_, hheap ▸ hgrows, hleft.group, hleft.mentions⟩ hnumber hworkers _
    rw [hleft.state_eq]
    rfl
  · cases hfailed

/-- Nothing happens any more at a channel that is over, nor at one that there is not. -/
lemma still_of_over {i : ℕ} (h : ∀ c, y.channels[i]? = some c → ∃ host, c = .over host) :
    Network.dispatch? environmentPrograms y i = none ∧
      Network.advance? environmentPrograms y i = none := by
  unfold Network.dispatch? Network.advance?
  cases hc : y.channels[i]? with
  | none => exact ⟨rfl, rfl⟩
  | some c =>
    obtain ⟨host, rfl⟩ := h c hc
    exact ⟨rfl, rfl⟩

/-- What a start that failed leaves: one more message to the user, with the reason. The tasks and
the channels of the other workers are as they were, and so is the state: the environment's own
context with its hooks, its lifecycle and its runs, the contexts of the workers, the store, the
files, the terminals with their sessions, the output and the log. If a channel was opened for the
worker, it is over at both ends, and a number and a place for a context are used up. The worker has
no session. -/
structure LeavesNothing (y : Environment) (e : WorkerError) (y' : Environment) : Prop where
  notes : y'.state.notes = y.state.notes ++ ["Failed to start worker: " ++ e.message]
  state : Leftovers y.state { y'.state with notes := y.state.notes }
  tasks : y'.serving = y.serving ∧ y'.running = y.running ∧ y'.results = y.results ∧
    y'.nextTicket = y.nextTicket
  channels :
    (y'.channels = y.channels ∧ y'.state.nextWorker = y.state.nextWorker ∧
      y'.state.workers = y.state.workers) ∨
    ∃ host, y'.channels = y.channels.push (.over host) ∧
      y'.state.nextWorker = y.state.nextWorker + 1 ∧
      y'.state.workers = y.state.workers.push default
  still : ∀ i, y.channels.size ≤ i → Network.dispatch? environmentPrograms y' i = none ∧
    Network.advance? environmentPrograms y' i = none
  session : y'.state.sessionOf? y.state.nextWorker = none

/-- A worker that does not start leaves nothing behind, at whatever stage its start fails. It is
enough that its number is not that of another worker with a terminal, which it is not as long as no
number was given out twice (`History.sessionOf?_next`). -/
theorem failed_start_leaves_nothing (hnew : y.state.sessionOf? y.state.nextWorker = none)
    (hfailed : (createWorker source o).run y = (some (.error e), y')) : LeavesNothing y e y' := by
  obtain ⟨z, hprepare, rfl⟩ := createWorker_error_iff.1 hfailed
  have hsession {s : EnvironmentState} (hleft : Leftovers y.state s) (text : String) :
      (s.note text).sessionOf? y.state.nextWorker = none := by
    have hterminals : s.terminals = y.state.terminals := congrArg (·.terminals) hleft.state_eq
    rw [← hnew, EnvironmentState.sessionOf?, EnvironmentState.note, hterminals]
    rfl
  have hstate {s : EnvironmentState} (hleft : Leftovers y.state s) (text : String) :
      Leftovers y.state { s.note text with notes := y.state.notes } := by
    refine ⟨?_, hleft.heap, hleft.group, hleft.mentions⟩
    have hsame : { s.note text with notes := y.state.notes } =
        { s with notes := y.state.notes } := rfl
    rw [hsame, hleft.state_eq]
  have hnotes {s : EnvironmentState} (hleft : Leftovers y.state s) (text : String) :
      (s.note text).notes = y.state.notes ++ [text] := by
    rw [EnvironmentState.note, hleft.state_eq]
  cases remains_of_prepare hnew hprepare with
  | nothing hleft hnumber hworkers =>
    refine ⟨hnotes hleft _, hstate hleft _, ⟨rfl, rfl, rfl, rfl⟩, .inl ⟨rfl, hnumber, hworkers⟩,
      fun i hi => still_of_over fun c hc => ?_, hsession hleft _⟩
    exact absurd (Array.getElem?_eq_none hi ▸ hc) nofun
  | channel hleft hnumber hworkers host =>
    refine ⟨hnotes hleft _, hstate hleft _, ⟨rfl, rfl, rfl, rfl⟩,
      .inr ⟨host, rfl, hnumber, hworkers⟩, fun i hi => still_of_over fun c hc => ⟨host, ?_⟩,
      hsession hleft _⟩
    have hlast : (y.channels.push (.over host))[i]? = some c := hc
    rw [Array.getElem?_push] at hlast
    split at hlast
    · exact (Option.some.inj hlast).symm
    · exact absurd (Array.getElem?_eq_none hi ▸ hlast) nofun

/-- An interpreter that takes its thread down, where there is a channel, a thread and a handle. -/
theorem crash_leaves_nothing : ∃ (y y' : Environment) (host : HostEndpoint HostMethod),
    y.state.sessionOf? y.state.nextWorker = none ∧
    (createWorker (.inline "") default).run y = (some (.error .threadPanic), y') ∧
    y'.channels = #[.over host] ∧ LeavesNothing y .threadPanic y' := by
  let y : Environment := { idle with state := { idle.state with
    factories := .ofList [(Shell.kind, ⟨Shell.kind, .crashing⟩)] } }
  have hfailed : (createWorker (.inline "") default).run y = (some (.error .threadPanic), _) :=
    createWorker_error_iff.2 ⟨_, (run_prepare _ _ y).trans rfl, rfl⟩
  exact ⟨y, _, (y.state.hostFor default).2, rfl, hfailed, rfl,
    failed_start_leaves_nothing rfl hfailed⟩

end Environment

end WorkerHost
