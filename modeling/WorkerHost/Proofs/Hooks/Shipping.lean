import WorkerHost.Environment.Worker
import WorkerHost.Proofs.Hooks.Contents

/-!
# Code on its way to a worker

A host holds code for the phases of its workers. The snapshot of it lists the phases that have any,
and a worker registers what it lists, fragment by fragment, before its own plugins add theirs.

* `Registry.install_workerCode`: installing a snapshot appends what a worker's registry lacks, phase
  by phase, and changes nothing else;
* `Registry.fragments_applyAll` and `Plugin.installAll_applyAll`: so do the registrations of plugins
  that follow;
* `Registry.shipping_preserves`: whatever a host has registered and removed, the code it holds for
  workers reaches every one of them as it is.
-/

namespace WorkerHost

/-! ## Appending what is missing -/

/-- Elements are added to a list in turn, each of them unless it is there. -/
def adjoin (l new : List String) : List String :=
  new.foldl (fun l a => if a ∈ l then l else l ++ [a]) l

lemma adjoin_cons (l : List String) (a : String) (rest : List String) :
    adjoin l (a :: rest) = adjoin (if a ∈ l then l else l ++ [a]) rest := rfl

lemma adjoin_append (l new more : List String) :
    adjoin l (new ++ more) = adjoin (adjoin l new) more :=
  List.foldl_append

lemma adjust_true (l : List String) (a : String) :
    (adjust true l a).2 = if a ∈ l then l else l ++ [a] := by
  have hany : l.any (· == a) = decide (a ∈ l) := by
    rw [Bool.eq_iff_iff]
    simp
  unfold adjust
  rw [hany]
  by_cases h : a ∈ l <;> simp [h]

lemma nodup_adjoin {l : List String} (new : List String) (h : l.Nodup) : (adjoin l new).Nodup := by
  induction new generalizing l with
  | nil => exact h
  | cons a rest ih =>
    rw [adjoin_cons]
    refine ih ?_
    split
    · exact h
    · rename_i ha
      exact List.nodup_append.2 ⟨h, List.pairwise_singleton _ a, fun b hb c hc => by
        rw [List.mem_singleton.1 hc]
        exact ne_of_mem_of_not_mem hb ha⟩

/-- What is missing is appended in its order, and once. -/
lemma adjoin_eq (l new : List String) : adjoin l new = l ++ (new.removeAll l).eraseDups := by
  induction new generalizing l with
  | nil => simp [adjoin, List.removeAll]
  | cons a rest ih =>
    rw [adjoin_cons, ih, List.cons_removeAll]
    by_cases ha : a ∈ l
    · simp [ha]
    · have hrest : rest.removeAll (l ++ [a]) = (rest.removeAll l).filter fun b => !(b == a) := by
        simp only [List.removeAll, List.filter_filter]
        congr 1
        funext b
        simp [Bool.and_comm, beq_eq_decide]
      rw [if_neg ha, hrest, if_pos (by simpa using ha), List.eraseDups_cons, List.append_assoc]
      rfl

lemma removeAll_nodup {new : List String} (l : List String) (h : new.Nodup) :
    (new.removeAll l).Nodup :=
  h.filter _

lemma removeAll_eq_nil {new l : List String} (h : ∀ s ∈ new, s ∈ l) : new.removeAll l = [] :=
  List.filter_eq_nil_iff.2 fun s hs => by simpa using h s hs

lemma eraseDups_of_nodup {l : List String} (h : l.Nodup) : l.eraseDups = l := by
  induction l with
  | nil => rfl
  | cons a rest ih =>
    obtain ⟨ha, hrest⟩ := List.nodup_cons.1 h
    have hother : (rest.filter fun b => !(b == a)) = rest := by
      refine List.filter_eq_self.2 fun b hb => ?_
      have hne : b ≠ a := ne_of_mem_of_not_mem hb ha
      simpa using hne
    rw [List.eraseDups_cons, hother, ih hrest]

/-! ## Snapshots -/

namespace Registry
variable {C : Type} {r : Registry C}

/-- The fragments that a registry holds for a phase of workers. -/
def held (r : Registry C) (p : Phase) : List String := (r.shipped.get p).toList

/-- A list of phases with their fragments has for each phase just the fragments of it. -/
lemma filter_flatMap_phases (f : Phase → List String) {ps : List Phase} (hps : ps.Nodup)
    (p : Phase) :
    ((((ps.map fun q => (q, f q)).filter (!·.2.isEmpty)).flatMap fun (q, texts) =>
      texts.map fun t => (q, t)).filter (·.1 == p)).map (·.2) = if p ∈ ps then f p else [] := by
  induction ps with
  | nil => rfl
  | cons q rest ih =>
    obtain ⟨hq, hrest⟩ := List.nodup_cons.1 hps
    -- an empty list of fragments may as well be listed
    have hfirst : ((((q :: rest).map fun q => (q, f q)).filter (!·.2.isEmpty)).flatMap
        fun (q, texts) => texts.map fun t => (q, t)) = (f q).map (fun t => (q, t)) ++
          (((rest.map fun q => (q, f q)).filter (!·.2.isEmpty)).flatMap
            fun (q, texts) => texts.map fun t => (q, t)) := by
      rw [List.map_cons, List.filter_cons]
      cases hempty : (f q).isEmpty with
      | true => simp [List.isEmpty_iff.1 hempty]
      | false => rfl
    rw [hfirst, List.filter_append, List.map_append, ih hrest]
    by_cases hp : p = q
    · subst hp
      simp [hq, List.filter_map, Function.comp_def]
    · have hnone : ((f q).map fun t => (q, t)).filter (·.1 == p) = [] := by
        simp [List.filter_map, Function.comp_def, Ne.symm hp]
      simp [hnone, hp]

variable [BEq C]

/-- A worker takes code for its own phases. -/
lemma register_code (hrole : r.role = .worker) {p : Phase} (hp : p.kind = .code) (text : String) :
    r.register .worker p (.code text) =
      .ok ((r.code.insert p text).1, { r with code := (r.code.insert p text).2 }) := by
  have hplace := place_of_belongs (r := r) (c := ⟨true, .worker, p, .code text⟩)
    (.own hp.symm hrole.symm)
  rw [register, hplace]
  rfl

/-- Code that is installed one fragment after the other goes to the table of code. -/
lemma installFragments_eq (hrole : r.role = .worker) {l : List (Phase × String)}
    (hl : ∀ e ∈ l, e.1.kind = .code) : ∃ t, r.installFragments l = (.ok (), { r with code := t }) ∧
      ∀ p, (t.get p).toList = adjoin (r.fragments p) ((l.filter (·.1 == p)).map (·.2)) := by
  induction l generalizing r with
  | nil => exact ⟨r.code, rfl, fun p => rfl⟩
  | cons e rest ih =>
    obtain ⟨phase, text⟩ := e
    have hregister := register_code hrole (hl (phase, text) List.mem_cons_self) text
    obtain ⟨t, ht, hget⟩ := ih (r := { r with code := (r.code.insert phase text).2 }) hrole
      fun e he => hl e (List.mem_cons_of_mem _ he)
    refine ⟨t, ?_, fun p => ?_⟩
    · rw [installFragments, hregister]
      exact ht
    · have hfirst : (r.code.insert phase text).2 = (r.code.edit true phase text).2 := rfl
      rw [hget, fragments]
      simp only [hfirst, PhaseTable.get_edit, adjust_true]
      by_cases hp : p = phase
      · subst hp
        simp [adjoin_cons, fragments]
      · rw [if_neg hp, List.filter_cons_of_neg (by simpa using Ne.symm hp)]
        rfl

/-! ### What a sound registry holds for workers -/

section
variable (h : r.contents.Sound r.role) (p : Phase)
include h

lemma held_nodup : (r.held p).Nodup := by
  have hdistinct := List.pairwise_map.1 (h.distinct .shipped p)
  refine hdistinct.imp ?_
  intro a b hab
  exact beq_eq_false_iff_ne.1 hab

lemma kind_of_held (hp : r.held p ≠ []) : p.kind = .code :=
  (h.shipped p (by simpa [contents, held] using hp)).2

/-- The snapshot lists the fragments of every phase, and code phases only. -/
lemma workerCode_spec :
    (∀ e ∈ r.workerCode.phases.flatMap fun (q, texts) => texts.map fun t => (q, t),
      e.1.kind = .code) ∧
    (((r.workerCode.phases.flatMap fun (q, texts) => texts.map fun t => (q, t)).filter
      (·.1 == p)).map (·.2)) = r.held p := by
  constructor
  · intro e he
    obtain ⟨⟨q, texts⟩, hlisted, he⟩ := List.mem_flatMap.1 he
    obtain ⟨text, htext, rfl⟩ := List.mem_map.1 he
    obtain ⟨q', -, hq⟩ := List.mem_map.1 (List.mem_filter.1 hlisted).1
    obtain ⟨rfl, rfl⟩ := Prod.mk.inj hq
    exact kind_of_held h q' (List.ne_nil_of_mem htext)
  · have hall : p ∈ Phase.all := by cases p <;> decide
    rw [workerCode, filter_flatMap_phases _ (by decide) p, if_pos hall]
    rfl

end

/-- Installing a snapshot appends what a worker's registry lacks, and changes nothing else. -/
theorem install_workerCode {host w : Registry C} (hhost : host.contents.Sound host.role)
    (hw : w.role = .worker) : ∃ t, w.install host.workerCode = (.ok (), { w with code := t }) ∧
      ∀ p, (t.get p).toList = w.fragments p ++ (host.held p).removeAll (w.fragments p) := by
  obtain ⟨t, ht, hget⟩ := installFragments_eq hw (workerCode_spec hhost default).1
  refine ⟨t, ht, fun p => ?_⟩
  rw [hget, (workerCode_spec hhost p).2, adjoin_eq,
    eraseDups_of_nodup (removeAll_nodup _ (held_nodup hhost p))]

/-! ## Registrations that follow -/

end Registry

/-- The fragment that a change contributes to a phase of a context of a role. -/
def HookChange.fragment? {C : Type} (own : Role) (p : Phase) (c : HookChange C) : Option String :=
  match c.hook with
  | .code text => if c.role = own ∧ c.phase = p then some text else none
  | .callback _ => none

namespace Registry
variable {C : Type} [BEq C] {r : Registry C} {p : Phase}

/-- A change of code for another phase or another role leaves the fragments of a phase. -/
lemma fragments_update_code {role : Role} {phase : Phase} {scope : Scope} (text : String)
    (hplace : (⟨true, role, phase, .code text⟩ : HookChange C).Belongs r.role scope)
    (hother : ¬(role = r.role ∧ phase = p)) :
    (r.update scope phase (.code text) (PhaseTable.edit true)
      (PhaseTable.edit true)).2.fragments p = r.fragments p := by
  cases hplace with
  | own hkind hrole =>
    have hget := PhaseTable.get_edit true r.code phase p text
    rwa [if_neg fun h => hother ⟨hrole, h.symm⟩] at hget
  | shipped => rfl

/-- A registration appends what it contributes to a phase of code, unless it is there. -/
lemma fragments_apply {c : HookChange C} (hadd : c.add = true) (hp : p.kind = .code) :
    (r.apply c).2.fragments p = adjoin (r.fragments p) (c.fragment? r.role p).toList := by
  obtain ⟨add, role, phase, hook⟩ := c
  subst hadd
  rw [apply_eq]
  cases hook with
  | callback c =>
    -- callbacks go to a table of their own
    rcases r.place role phase (.callback c) with e | none | scope
    · rfl
    · rfl
    · cases scope <;> rfl
  | code text =>
    by_cases hown : role = r.role ∧ phase = p
    · obtain ⟨rfl, rfl⟩ := hown
      have hplace := place_of_belongs (r := r) (c := ⟨true, r.role, phase, .code text⟩)
        (.own hp.symm rfl)
      have hget := PhaseTable.get_edit true r.code phase phase text
      rw [if_pos rfl, adjust_true] at hget
      simp only [hplace, HookChange.fragment?, and_self, if_true, Option.toList_some]
      exact hget
    · have hnone : (⟨true, role, phase, .code text⟩ : HookChange C).fragment? r.role p = none :=
        if_neg hown
      rw [hnone]
      by_cases hbelongs : ∃ scope,
          (⟨true, role, phase, .code text⟩ : HookChange C).Belongs r.role scope
      · obtain ⟨scope, hplace⟩ := hbelongs
        rw [place_of_belongs hplace]
        exact fragments_update_code text hplace hown
      · have hrest := not_exists.1 hbelongs
        by_cases hkind : (Hook.code text : Hook C).kind = phase.kind
        · rw [place_of_not_belongs hkind hrest]
          cases r.policy <;> rfl
        · rw [place, if_neg hkind]
          rfl

/-- Registrations append what they contribute to a phase of code, in their order and once. -/
lemma fragments_applyAll (hp : p.kind = .code) {cs : List (HookChange C)}
    (hcs : ∀ c ∈ cs, c.add = true) :
    (r.applyAll cs).2.fragments p =
      adjoin (r.fragments p) (cs.filterMap (·.fragment? r.role p)) := by
  induction cs generalizing r with
  | nil => rfl
  | cons c rest ih =>
    show ((r.apply c).2.applyAll rest).2.fragments p = _
    rw [ih fun c hc => hcs c (List.mem_cons_of_mem _ hc), (r.apply_keeps c).1,
      fragments_apply (hcs c List.mem_cons_self) hp, ← adjoin_append, List.filterMap_cons]
    cases c.fragment? r.role p <;> rfl

end Registry

/-! ## Plugins -/

namespace Phase

lemma ofText_ok {name : String} {p : Phase} (h : ofText name = .ok p) : name = p.text := by
  unfold ofText at h
  split at h
  · rename_i q hq
    obtain rfl := Except.ok.inj h
    have htext := List.find?_some (p := fun p : Phase => p.text == name) hq
    exact (beq_iff_eq.1 htext).symm
  · cases h

lemma text_inj {p q : Phase} : p.text = q.text ↔ p = q := by
  refine ⟨fun h => ?_, congrArg text⟩
  have := ofText?_text q
  rw [← h, ofText?_text] at this
  exact Option.some.inj this

end Phase

/-- The fragment that a hook of a plugin contributes to a phase of a context of a role. -/
def PluginHook.fragment? (own : Role) (p : Phase) (h : PluginHook) : Option String :=
  match h.hook with
  | .code text =>
    if h.only.all (· == own) ∧ h.role.getD own = own ∧ h.phase = p.text then some text else none
  | .callback .. => none

lemma Mentions.hook_callback (ms : Mentions) (group : ℕ) (key : String) (name : Option String)
    (actions : List Action) :
    ∃ c, (ms.hook group (.callback key name actions)).1 = .callback c := by
  simp only [hook]
  cases ms.known.find? (·.1 == (group, key)) with
  | some known => exact ⟨known.2, rfl⟩
  | none => exact ⟨_, rfl⟩

/-- A hook that is registered contributes what the plugin's hook says. -/
lemma PluginHook.fragment?_eq {own : Role} {h : PluginHook} (honly : h.only.all (· == own) = true)
    {phase : Phase} (hphase : h.phase = phase.text) (ms : Mentions) (group : Nat) (p : Phase) :
    (⟨true, h.role.getD own, phase, (ms.hook group h.hook).1⟩ : HookChange Callback).fragment?
      own p = h.fragment? own p := by
  unfold HookChange.fragment? PluginHook.fragment?
  cases h.hook with
  | code text => simp only [Mentions.hook, honly, hphase, Phase.text_inj, true_and]
  | callback key name actions =>
    obtain ⟨c, hc⟩ := ms.hook_callback group key name actions
    rw [hc]

lemma PluginHook.fragment?_eq_none {own : Role} {h : PluginHook}
    (honly : ¬h.only.all (· == own) = true) (p : Phase) : h.fragment? own p = none := by
  unfold PluginHook.fragment?
  split
  · exact if_neg fun h => honly h.1
  · rfl

namespace Plugin
variable {r r' : Registry Callback} {ms ms' : Mentions} {group group' : Nat}

/-- The fragments that plugins contribute to a phase of a context of a role, in the order of their
installation. -/
def contributions (own : Role) (p : Phase) (plugins : List Plugin) : List String :=
  plugins.flatMap fun plugin => plugin.hooks.filterMap (·.fragment? own p)

/-- Hooks of a plugin that are installed are registered in turn. -/
lemma installHooks_applyAll {hooks : List PluginHook}
    (h : installHooks r ms group hooks = (.ok (), r', ms')) :
    ∃ cs : List (HookChange Callback), (∀ c ∈ cs, c.add = true) ∧ r' = (r.applyAll cs).2 ∧
      ∀ p, cs.filterMap (·.fragment? r.role p) = hooks.filterMap (·.fragment? r.role p) := by
  induction hooks generalizing r ms with
  | nil =>
    cases h
    exact ⟨[], fun c hc => (nomatch hc), rfl, fun p => rfl⟩
  | cons hook rest ih =>
    rw [installHooks] at h
    by_cases honly : hook.only.all (· == r.role) = true
    · rw [if_pos honly] at h
      cases hphase : Phase.ofText hook.phase with
      | error e =>
        rw [hphase] at h
        cases h
      | ok phase =>
        let c : HookChange Callback :=
          ⟨true, hook.role.getD r.role, phase, (ms.hook group hook.hook).1⟩
        simp only [hphase, Registry.change_eq] at h
        cases hanswer : (r.apply c).1 with
        | error e =>
          simp only [c] at hanswer
          rw [hanswer] at h
          cases h
        | ok changed =>
          simp only [c] at hanswer
          rw [hanswer] at h
          obtain ⟨cs, hadd, hr, hcs⟩ := ih h
          refine ⟨c :: cs, List.forall_mem_cons.2 ⟨rfl, hadd⟩, hr, fun p => ?_⟩
          have hfirst := PluginHook.fragment?_eq honly (Phase.ofText_ok hphase) ms group p
          rw [(r.apply_keeps _).1] at hcs
          rw [List.filterMap_cons, List.filterMap_cons, hfirst, hcs p]
    · rw [if_neg honly] at h
      obtain ⟨cs, hadd, hr, hcs⟩ := ih h
      refine ⟨cs, hadd, hr, fun p => ?_⟩
      rw [hcs p, List.filterMap_cons, PluginHook.fragment?_eq_none honly]

/-- So are the hooks of all plugins. -/
lemma installAll_applyAll {plugins : List Plugin}
    (h : installAll r ms group plugins = (.ok (), r', ms', group')) :
    ∃ cs : List (HookChange Callback), (∀ c ∈ cs, c.add = true) ∧ r' = (r.applyAll cs).2 ∧
      ∀ p, cs.filterMap (·.fragment? r.role p) = contributions r.role p plugins := by
  induction plugins generalizing r ms group with
  | nil =>
    cases h
    exact ⟨[], fun c hc => (nomatch hc), rfl, fun p => rfl⟩
  | cons plugin rest ih =>
    rw [installAll] at h
    rcases hfirst : plugin.install r ms group with ⟨e | _, r₁, ms₁⟩
    · rw [hfirst] at h
      cases h
    · rw [hfirst] at h
      obtain ⟨first, hadd, rfl, hcontributed⟩ := installHooks_applyAll hfirst
      obtain ⟨cs, hadd', hr, hcontributed'⟩ := ih h
      rw [(r.applyAll_keeps first).1] at hcontributed'
      refine ⟨first ++ cs, ?_, ?_, fun p => ?_⟩
      · exact fun c hc => (List.mem_append.1 hc).elim (hadd c) (hadd' c)
      · rw [hr, Registry.applyAll_append]
      · rw [List.filterMap_append, hcontributed, hcontributed', contributions, contributions,
          List.flatMap_cons]

end Plugin

/-! ## Workers -/

namespace EnvironmentState
variable {s s' : EnvironmentState} {name : String} {factory : Factory} {version : Option String}
  {config : Value} {w : WorkerContext}

section
variable {r : Registry Callback} (hr : (Registry.new .worker s.settings.rolePolicy).install
  s.own.registry.workerCode = (.ok (), r))
include hr

/-- Once the shipped code is installed, starting a worker depends on the plugins and the factory. -/
lemma bootWorker_eq : (s.bootWorker name factory version config).1 =
    match Plugin.installAll r s.mentions s.nextGroup s.plugins with
    | (.error e, _) => .error (.hook e)
    | (.ok (), registry, _) =>
      (factory.create s.heap version config).map fun shell =>
        ⟨name, { ContextState.new .worker s.settings with registry := registry },
          shell.setModule WorkerContext.hostModuleName (WorkerContext.hostModule s.heap).1, config,
          false, .new, .new⟩ := by
  have hcode : (ContextState.new .worker s.settings).registry.install s.own.registry.workerCode =
    (.ok (), r) := hr
  simp only [bootWorker, hcode]
  rcases Plugin.installAll r s.mentions s.nextGroup s.plugins with ⟨e | _, registry, ms, group⟩
  · rfl
  · simp only
    cases factory.create s.heap version config <;> rfl

lemma registry_of_bootWorker (h : (s.bootWorker name factory version config).1 = .ok w) :
    ∃ ms group, Plugin.installAll r s.mentions s.nextGroup s.plugins =
      (.ok (), w.context.registry, ms, group) := by
  rw [bootWorker_eq hr] at h
  rcases hplugins : Plugin.installAll r s.mentions s.nextGroup s.plugins with
    ⟨e | _, registry, ms, group⟩ <;> rw [hplugins] at h
  · cases h
  · simp only at h
    cases hcreate : factory.create s.heap version config with
    | error e =>
      rw [hcreate] at h
      cases h
    | ok shell =>
      rw [hcreate] at h
      cases h
      exact ⟨ms, group, rfl⟩

end

end EnvironmentState

namespace Registry

/-- Code that a host holds for workers reaches them as it is. -/
structure Ships (host : Registry Callback) : Prop where
  /-- a new worker's registry takes the code of every phase in its order, and has nothing else -/
  fresh : ∀ policy, ∃ w : Registry Callback,
    (new .worker policy).install host.workerCode = (.ok (), w) ∧
    ∀ p, w.fragments p = host.held p ∧ w.contents .own p = (host.held p).map .code ∧
      w.contents .shipped p = [] ∧ (p.kind = .callback → w.contents .own p = [])
  /-- any other one takes what it lacks after what it has, and nothing else of it changes -/
  onto : ∀ w : Registry Callback, w.role = .worker →
    ∃ t, w.install host.workerCode = (.ok (), { w with code := t }) ∧
      ∀ p, (t.get p).toList = w.fragments p ++ (host.held p).removeAll (w.fragments p)
  /-- nothing changes when the code comes again -/
  again : ∀ w w' : Registry Callback, w.role = .worker →
    w.install host.workerCode = (.ok (), w') →
    ∃ t, w'.install host.workerCode = (.ok (), { w' with code := t }) ∧
      ∀ p, (t.get p).toList = w'.fragments p
  /-- registrations that follow append what is new, in their order and once -/
  followed : ∀ policy w, (new .worker policy).install host.workerCode = (.ok (), w) →
    ∀ cs : List (HookChange Callback), (∀ c ∈ cs, c.add = true) → ∀ p : Phase, p.kind = .code →
      (w.applyAll cs).2.fragments p = host.held p ++
        ((cs.filterMap (·.fragment? .worker p)).removeAll (host.held p)).eraseDups ∧
      ((w.applyAll cs).2.fragments p).Nodup
  /-- so do the plugins of a worker that starts, -/
  boot : ∀ (s : EnvironmentState) name factory version config w, s.own.registry = host →
    (s.bootWorker name factory version config).1 = .ok w → ∀ p : Phase, p.kind = .code →
      w.context.registry.fragments p = host.held p ++
        ((Plugin.contributions .worker p s.plugins).removeAll (host.held p)).eraseDups ∧
      (w.context.registry.fragments p).Nodup
  /-- and nothing but its plugins and its interpreter can keep it from that -/
  started : ∀ (s : EnvironmentState) name (factory : Factory) version config shell w,
    s.own.registry = host →
    (new .worker s.settings.rolePolicy).install host.workerCode = (.ok (), w) →
    (Plugin.installAll w s.mentions s.nextGroup s.plugins).1 = .ok () →
    factory.create s.heap version config = .ok shell →
    ∃ w, (s.bootWorker name factory version config).1 = .ok w

section
variable {host : Registry Callback} (hhost : host.contents.Sound host.role) {policy : RolePolicy}
  {w : Registry Callback}
include hhost

/-- A new worker's registry takes just the fragments that its host holds. -/
lemma install_fresh (policy : RolePolicy) : ∃ w : Registry Callback,
    (new .worker policy).install host.workerCode = (.ok (), w) ∧ w.role = .worker ∧
      (∀ p, w.fragments p = host.held p) ∧ w.callbacks = .empty ∧ w.shipped = .empty := by
  obtain ⟨t, ht, hget⟩ := install_workerCode (w := new .worker policy) hhost rfl
  refine ⟨_, ht, rfl, fun p => ?_, rfl, rfl⟩
  have hempty : (new .worker policy : Registry Callback).fragments p = [] := rfl
  show (t.get p).toList = _
  rw [hget, hempty, List.removeAll_nil]
  rfl

/-- Registrations in a worker that has just taken its code. -/
lemma fragments_followed (hw : (new .worker policy).install host.workerCode = (.ok (), w))
    {cs : List (HookChange Callback)} (hcs : ∀ c ∈ cs, c.add = true) {p : Phase}
    (hp : p.kind = .code) :
    (w.applyAll cs).2.fragments p = host.held p ++
        ((cs.filterMap (·.fragment? .worker p)).removeAll (host.held p)).eraseDups ∧
      ((w.applyAll cs).2.fragments p).Nodup := by
  obtain ⟨w', hw', hrole, hget, -⟩ := install_fresh hhost policy
  obtain rfl : w' = w := (Prod.mk.inj (hw'.symm.trans hw)).2
  have hfragments := fragments_applyAll (r := w') hp hcs
  rw [hrole, hget] at hfragments
  refine ⟨hfragments.trans (adjoin_eq _ _), ?_⟩
  rw [hfragments]
  exact nodup_adjoin _ (held_nodup hhost p)

/-- A new worker's registry has nothing but what its host holds. -/
lemma contents_fresh (policy : RolePolicy) : ∃ w : Registry Callback,
    (new .worker policy).install host.workerCode = (.ok (), w) ∧
    ∀ p, w.fragments p = host.held p ∧ w.contents .own p = (host.held p).map .code ∧
      w.contents .shipped p = [] ∧ (p.kind = .callback → w.contents .own p = []) := by
  obtain ⟨w, hw, -, hget, hcallbacks, hshipped⟩ := install_fresh hhost policy
  have hown : ∀ p, w.contents .own p = (host.held p).map .code := by
    intro p
    rw [contents, hget, callbacksOf, hcallbacks]
    rfl
  refine ⟨w, hw, fun p => ⟨hget p, hown p, ?_, fun hp => ?_⟩⟩
  · rw [contents, hshipped]
    rfl
  · have hnone : host.held p = [] := by
      by_contra hheld
      rw [kind_of_held hhost p hheld] at hp
      cases hp
    rw [hown, hnone, List.map_nil]

/-- Code that comes again finds all its fragments there. -/
lemma install_again {w' : Registry Callback} (hw : w.role = .worker)
    (hinstall : w.install host.workerCode = (.ok (), w')) :
    ∃ t, w'.install host.workerCode = (.ok (), { w' with code := t }) ∧
      ∀ p, (t.get p).toList = w'.fragments p := by
  obtain ⟨t, ht, hget⟩ := install_workerCode hhost hw
  obtain rfl : { w with code := t } = w' := (Prod.mk.inj (ht.symm.trans hinstall)).2
  obtain ⟨t', ht', hget'⟩ := install_workerCode (w := { w with code := t }) hhost hw
  refine ⟨t', ht', fun p => ?_⟩
  have hfragments : ({ w with code := t } : Registry Callback).fragments p = (t.get p).toList :=
    rfl
  have hnone : (host.held p).removeAll (t.get p).toList = [] := by
    refine removeAll_eq_nil fun s hs => ?_
    rw [hget]
    by_cases hmem : s ∈ w.fragments p
    · exact List.mem_append_left _ hmem
    · exact List.mem_append_right _ (List.mem_filter.2 ⟨hs, by simpa using hmem⟩)
  rw [hget', hfragments, hnone, List.append_nil]

end

/-- The fragments of a worker that has started: its host's, then what the plugins add. -/
lemma fragments_bootWorker {s : EnvironmentState} {name : String} {factory : Factory}
    {version : Option String} {config : Value} {w : WorkerContext}
    (hhost : s.own.registry.contents.Sound s.own.registry.role)
    (hboot : (s.bootWorker name factory version config).1 = .ok w) {p : Phase}
    (hp : p.kind = .code) :
    w.context.registry.fragments p = s.own.registry.held p ++
        ((Plugin.contributions .worker p s.plugins).removeAll (s.own.registry.held p)).eraseDups ∧
      (w.context.registry.fragments p).Nodup := by
  obtain ⟨r, hr, hrole, -⟩ := install_fresh hhost s.settings.rolePolicy
  obtain ⟨ms, group, hplugins⟩ := EnvironmentState.registry_of_bootWorker hr hboot
  obtain ⟨cs, hadd, hregistry, hcontributed⟩ := Plugin.installAll_applyAll hplugins
  rw [hrole] at hcontributed
  rw [hregistry, ← hcontributed p]
  exact fragments_followed hhost hr hadd hp

/-- A worker whose plugins and interpreter are there starts. -/
lemma exists_bootWorker {s : EnvironmentState} {name : String} {factory : Factory}
    {version : Option String} {config : Value} {shell : Shell} {w : Registry Callback}
    (hinstall : (new .worker s.settings.rolePolicy).install s.own.registry.workerCode = (.ok (), w))
    (hplugins : (Plugin.installAll w s.mentions s.nextGroup s.plugins).1 = .ok ())
    (hcreate : factory.create s.heap version config = .ok shell) :
    ∃ w, (s.bootWorker name factory version config).1 = .ok w := by
  rw [EnvironmentState.bootWorker_eq hinstall, hcreate]
  rcases h : Plugin.installAll w s.mentions s.nextGroup s.plugins with ⟨answer, rest⟩
  rw [h] at hplugins
  obtain rfl : answer = .ok () := hplugins
  exact ⟨_, rfl⟩

/-- Whatever has been registered with a host and removed from it, the code it holds for its workers
reaches them as it is. -/
theorem shipping_preserves (policy : RolePolicy) (cs : List (HookChange Callback)) :
    Ships ((new .host policy).applyAll cs).2 := by
  have hnew : (new .host policy : Registry Callback).contents.Sound .host := by
    rw [contents_new]
    exact HookMap.sound_empty .host
  have hhost := (applyAll_run (r := new .host policy) hnew cs).sound hnew
  rw [← (applyAll_keeps (new .host policy) cs).1] at hhost
  generalize ((new .host policy).applyAll cs).2 = host at hhost
  exact {
    fresh := contents_fresh hhost
    onto := fun w => install_workerCode hhost
    again := fun w w' => install_again hhost
    followed := fun policy w hw cs hcs p => fragments_followed hhost hw hcs
    boot := by
      rintro s name factory version config w rfl hboot p
      exact fragments_bootWorker hhost hboot
    started := by
      rintro s name factory version config shell w rfl
      exact exists_bootWorker }

/-- An environment that has changed its registry, with a plugin for its workers: one of the
fragments of it is new to them, and the other one comes from the environment already. -/
def shippingEnvironment : EnvironmentState where
  __ := EnvironmentState.new .host .default ⟨⟨[], []⟩, none⟩
  own := ⟨((new .host .reject).applyAll hostChanges).2, .new Settings.default.afterRunOrder⟩
  plugins := [⟨0, "setup", [⟨none, none, "codeBeforeRun", .code "set b 2"⟩,
    ⟨some .worker, none, "codeBeforeRun", .code "set a 1"⟩]⟩]

theorem shipping_preserves_shippingEnvironment : ∃ w,
    (shippingEnvironment.bootWorker "worker-1" .shell none .null).1 = .ok w ∧
      w.context.registry.fragments .codeBeforeRun = ["set a 1", "set b 2"] := by
  have hships := shipping_preserves .reject hostChanges
  obtain ⟨w, hw⟩ :=
    hships.started shippingEnvironment "worker-1" .shell none .null _ _ rfl rfl rfl rfl
  refine ⟨w, hw, ?_⟩
  rw [(hships.boot shippingEnvironment "worker-1" .shell none .null w rfl hw .codeBeforeRun rfl).1]
  decide

end Registry
end WorkerHost
