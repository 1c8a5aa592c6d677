import WorkerHost.Proofs.Counter
import WorkerHost.Proofs.Environment.Preparation

/-!
# Everything that is done with an environment

`Environment.History` are all sequences of operations of an environment, with how many workers were
to be started, those that were, and what happened to their terminals. Whatever was done, the workers
have channels of their own, and each is still given the configuration that it was started with. As
long as the numbers of workers have not come round, each has a number of its own too, and the
terminals that are recorded are those that were attached since: `Environment.History.books`.
-/

namespace WorkerHost

/-! ## What happens to terminals -/

/-- What happens to the terminal of a worker: one is to be attached to it, which takes effect or
not, or the worker is ended. -/
inductive TerminalEvent
  | attached (worker : UInt64) (effective : Bool)
  | ended (worker : UInt64)
deriving DecidableEq

namespace TerminalEvent

/-- Whether a terminal was attached to the worker since it was last ended; the latest event comes
first. -/
def holds (id : UInt64) : List TerminalEvent → Bool
  | [] => false
  | attached worker effective :: log => (worker = id && effective) || holds id log
  | ended worker :: log => worker ≠ id && holds id log

/-- A terminal takes effect only where there is none. -/
def Alternates (id : UInt64) : List TerminalEvent → Prop
  | [] => True
  | attached worker effective :: log =>
    (worker = id → effective = true → holds id log = false) ∧ Alternates id log
  | ended _ :: log => Alternates id log

variable {id : UInt64} {log : List TerminalEvent}

lemma holds_attached : holds id (attached id true :: log) = true := by
  simp [holds]

lemma holds_refused {worker : UInt64} : holds id (attached worker false :: log) = holds id log := by
  simp [holds]

lemma holds_of_ne {worker : UInt64} (h : worker ≠ id) (effective : Bool) :
    holds id (attached worker effective :: log) = holds id log := by
  simp [holds, h]

end TerminalEvent

namespace Environment
open TerminalEvent

/-! ## Operations -/

/-- The workers that there are once one was to be started. -/
def begun : Option (Except WorkerError Worker) → List Worker
  | some (.ok w) => [w]
  | _ => []

/-- A worker that is to have a terminal is begun with it. -/
def opening (o : WorkerOptions) (r : Option (Except WorkerError Worker)) : List TerminalEvent :=
  if o.terminal.isSome then (begun r).map (.attached ·.id true) else []

/-- Everything that can be done with an environment, with how many workers were to be started, those
that were, and what happened to their terminals. The methods that workers come with leave the roster
alone, and so does whatever else is done to the state. -/
inductive History : ℕ → List Worker → List TerminalEvent → Environment → Prop
  | new (role : Role) (settings : Settings) (files : FileFetch) :
      History 0 [] [] (.new role settings files)
  | progress {n : ℕ} {ws : List Worker} {log : List TerminalEvent} {y : Environment} (fuel : ℕ)
      (h : History n ws log y) : History n ws log (Network.settle environmentPrograms fuel y)
  | work {n : ℕ} {ws : List Worker} {log : List TerminalEvent} {y : Environment}
      {s : EnvironmentState} (hs : s.roster = y.state.roster) (h : History n ws log y) :
      History n ws log { y with state := s }
  | create {n : ℕ} {ws : List Worker} {log : List TerminalEvent} {y : Environment}
      (source : SourceRef) {o : WorkerOptions} (hmethods : ∀ m ∈ o.methods, m.2.Modest)
      (h : History n ws log y) :
      History (n + 1) (begun ((createWorker source o).run y).1 ++ ws)
        (opening o ((createWorker source o).run y).1 ++ log) ((createWorker source o).run y).2
  | attach {n : ℕ} {ws : List Worker} {log : List TerminalEvent} {y : Environment} {w : Worker}
      (hw : w ∈ ws) (terminal : String) (h : History n ws log y) :
      History n ws (.attached w.id ((attachTerminal w terminal).run y).1 :: log)
        ((attachTerminal w terminal).run y).2
  | terminate {n : ℕ} {ws : List Worker} {log : List TerminalEvent} {y : Environment} {w : Worker}
      (hw : w ∈ ws) (h : History n ws log y) :
      History n ws (.ended w.id :: log) ((terminate w).run y).2
  | run {n : ℕ} {ws : List Worker} {log : List TerminalEvent} {y : Environment} {w : Worker}
      (hw : w ∈ ws) (code : String) (mode : RunMode) (h : History n ws log y) :
      History n ws log ((run w code mode).run y).2
  | call {n : ℕ} {ws : List Worker} {log : List TerminalEvent} {y : Environment} {w : Worker}
      (hw : w ∈ ws) (target : Target) (args : List Value) (h : History n ws log y) :
      History n ws log ((call w target args).run y).2
  | finished {n : ℕ} {ws : List Worker} {log : List TerminalEvent} {y : Environment} {w : Worker}
      (hw : w ∈ ws) (h : History n ws log y) : History n ws log ((finished w).run y).2
  | onTerminal {n : ℕ} {ws : List Worker} {log : List TerminalEvent} {y : Environment} {w : Worker}
      (hw : w ∈ ws) (f : Session → Session) (h : History n ws log y) :
      History n ws log ((onTerminal w f).run y).2

/-! ## What is kept about workers and terminals -/

/-- Reads and writes go to this session. -/
def ReadsAndWrites (session : ℕ) (f : Target → Option HostMethod) : Prop :=
  f (.method Method.read) = some (.terminalRead session) ∧
    f (.method Method.write) = some (.terminalWrite session)

lemma readsAndWrites_boundTo (session : ℕ) (f : Target → Option HostMethod) :
    ReadsAndWrites session (boundTo session f) :=
  ⟨rfl, rfl⟩

/-- The workers have channels, and their contexts there have the configurations of the workers. -/
structure Placed (ws : List Worker) (v : Roster) (names : Array (Target → Option HostMethod)) :
    Prop where
  size : v.configs.size = names.size
  placed : ∀ w ∈ ws, w.channel < names.size
  configured : ∀ w ∈ ws, v.configs[w.channel]? = some w.config

/-- So many numbers were given out, and no two workers have the same. The sessions that are recorded
and what is named agree with what happened to the terminals. -/
structure Books (k : ℕ) (ws : List Worker) (log : List TerminalEvent) (v : Roster)
    (names : Array (Target → Option HostMethod)) : Prop where
  next : v.nextWorker = counterAt k
  given : ∀ p ∈ v.terminals, ∃ i < k, p.1 = counterAt i
  numbered : ∀ w ∈ ws, ∃ i < k, w.id = counterAt i
  apart : ∀ w ∈ ws, ∀ w' ∈ ws, w.id = w'.id ↔ w.channel = w'.channel
  recorded : ∀ id, (sessionIn v id).isSome = holds id log
  bound : ∀ w ∈ ws, ∀ session, sessionIn v w.id = some session →
    ∃ f, names[w.channel]? = some f ∧ ReadsAndWrites session f
  alternates : ∀ id, Alternates id log

section
variable {k : ℕ} {ws : List Worker} {log : List TerminalEvent} {v : Roster}
  {names : Array (Target → Option HostMethod)} {w : Worker} {session : ℕ}

namespace Placed

lemma new : Placed [] ⟨1, [], #[]⟩ #[] where
  size := rfl
  placed := List.forall_mem_nil _
  configured := List.forall_mem_nil _

/-- There is another channel. -/
lemma push (h : Placed ws v names) (f : Target → Option HostMethod) (config : Value) :
    Placed ws (v.next config) (names.push f) where
  size := by rw [Roster.next, Array.size_push, Array.size_push, h.size]
  placed w hw := by
    rw [Array.size_push]
    exact Nat.lt_succ_of_lt (h.placed w hw)
  configured w hw := by
    have hne : w.channel ≠ v.configs.size := h.size ▸ Nat.ne_of_lt (h.placed w hw)
    rw [Roster.next, Array.getElem?_push, if_neg hne]
    exact h.configured w hw

/-- A worker is started. -/
lemma start (h : Placed ws v names) (f : Target → Option HostMethod)
    (hchannel : w.channel = names.size) : Placed (w :: ws) (v.next w.config) (names.push f) where
  size := (h.push f w.config).size
  placed := by
    refine List.forall_mem_cons.2 ⟨?_, (h.push f w.config).placed⟩
    rw [Array.size_push]
    exact Nat.lt_succ_of_le (Nat.le_of_eq hchannel)
  configured := by
    refine List.forall_mem_cons.2 ⟨?_, (h.push f w.config).configured⟩
    rw [Roster.next, Array.getElem?_push, if_pos (hchannel.trans h.size.symm)]

/-- Something else is named at a host end, and other sessions are recorded. -/
lemma attach (h : Placed ws v names) (i : ℕ)
    (g : (Target → Option HostMethod) → Target → Option HostMethod)
    (terminals : List (UInt64 × ℕ)) :
    Placed ws { v with terminals := terminals } (names.modify i g) where
  size := h.size.trans Array.size_modify.symm
  placed w hw := by
    rw [Array.size_modify]
    exact h.placed w hw
  configured := h.configured

/-- A worker was to be started. -/
lemma started {o : WorkerOptions} {r : Option (Except WorkerError Worker)} {v' : Roster}
    {names' : Array (Target → Option HostMethod)} (h : Placed ws v names)
    (hstarted : Started v names o r v' names') : Placed (begun r ++ ws) v' names' := by
  cases hstarted with
  | failed hspent =>
    cases hspent with
    | nothing => exact h
    | channel f => exact h.push f .null
    | handle f =>
      have hpushed := h.push f .null
      exact ⟨hpushed.size, hpushed.placed, hpushed.configured⟩
  | waits f config => exact h.push f config
  | plain f _ hchannel | refused f _ hchannel => exact h.start f hchannel
  | attached f session _ hchannel => exact (h.start f hchannel).attach _ _ _

end Placed

namespace Books

lemma new : Books 0 [] [] ⟨1, [], #[]⟩ #[] where
  next := rfl
  given := List.forall_mem_nil _
  numbered := List.forall_mem_nil _
  apart := List.forall_mem_nil _
  recorded _ := rfl
  bound := List.forall_mem_nil _
  alternates _ := trivial

/-- The next number has no session yet. -/
lemma sessionIn_next (h : Books k ws log v names) (hk : k < 2 ^ 64) :
    sessionIn v v.nextWorker = none := by
  rw [sessionIn, Option.map_eq_none_iff, List.find?_eq_none]
  intro p hp heq
  obtain ⟨i, hi, hid⟩ := h.given p hp
  rw [beq_iff_eq, hid, h.next] at heq
  exact counterAt_ne hi hk heq

/-- There is another channel. -/
lemma push (h : Books k ws log v names) (hplaced : Placed ws v names)
    (f : Target → Option HostMethod) (config : Value) :
    Books (k + 1) ws log (v.next config) (names.push f) where
  next := by rw [counterAt_succ, Roster.next, h.next]
  given p hp := by
    obtain ⟨i, hi, hid⟩ := h.given p hp
    exact ⟨i, Nat.lt_succ_of_lt hi, hid⟩
  numbered w hw := by
    obtain ⟨i, hi, hid⟩ := h.numbered w hw
    exact ⟨i, Nat.lt_succ_of_lt hi, hid⟩
  apart := h.apart
  recorded := h.recorded
  bound w hw session hsession := by
    obtain ⟨g, hg, hbound⟩ := h.bound w hw session hsession
    refine ⟨g, ?_, hbound⟩
    rw [Array.getElem?_push, if_neg (Nat.ne_of_lt (hplaced.placed w hw))]
    exact hg
  alternates := h.alternates

/-- A worker is started. -/
lemma start (h : Books k ws log v names) (hplaced : Placed ws v names) (hk : k < 2 ^ 64)
    (f : Target → Option HostMethod) (hid : w.id = v.nextWorker)
    (hchannel : w.channel = names.size) :
    Books (k + 1) (w :: ws) log (v.next w.config) (names.push f) where
  next := (h.push hplaced f w.config).next
  given := (h.push hplaced f w.config).given
  numbered :=
    List.forall_mem_cons.2 ⟨⟨k, Nat.lt_succ_self k, hid.trans h.next⟩,
      (h.push hplaced f w.config).numbered⟩
  apart := by
    have hnew : ∀ w' ∈ ws, w.id ≠ w'.id ∧ w.channel ≠ w'.channel := by
      intro w' hw'
      obtain ⟨i, hi, hid'⟩ := h.numbered w' hw'
      refine ⟨?_, hchannel ▸ (Nat.ne_of_lt (hplaced.placed w' hw')).symm⟩
      rw [hid, h.next, hid']
      exact (counterAt_ne hi hk).symm
    intro w₁ hw₁ w₂ hw₂
    rcases List.mem_cons.1 hw₁ with rfl | hold₁ <;> rcases List.mem_cons.1 hw₂ with rfl | hold₂
    · exact iff_of_true rfl rfl
    · exact iff_of_false (hnew w₂ hold₂).1 (hnew w₂ hold₂).2
    · exact iff_of_false (hnew w₁ hold₁).1.symm (hnew w₁ hold₁).2.symm
    · exact h.apart w₁ hold₁ w₂ hold₂
  recorded := h.recorded
  bound := by
    refine List.forall_mem_cons.2 ⟨fun session hsession => ?_, (h.push hplaced f w.config).bound⟩
    rw [hid] at hsession
    cases (h.sessionIn_next hk).symm.trans hsession
  alternates := h.alternates

/-- A terminal is refused. -/
lemma refuse (h : Books k ws log v names) (id : UInt64) :
    Books k ws (.attached id false :: log) v names where
  next := h.next
  given := h.given
  numbered := h.numbered
  apart := h.apart
  recorded id' := (h.recorded id').trans holds_refused.symm
  bound := h.bound
  alternates id' := ⟨fun _ => nofun, h.alternates id'⟩

/-- A worker without a terminal is given one. -/
lemma attach (h : Books k ws log v names) (hplaced : Placed ws v names) (hw : w ∈ ws)
    (hnone : sessionIn v w.id = none) :
    Books k ws (.attached w.id true :: log)
      { v with terminals := (w.id, session) :: v.terminals }
      (names.modify w.channel (boundTo session)) where
  next := h.next
  given := List.forall_mem_cons.2 ⟨h.numbered w hw, h.given⟩
  numbered := h.numbered
  apart := h.apart
  recorded id := by
    rw [sessionIn_cons]
    split
    · next heq =>
      subst heq
      exact holds_attached.symm
    · next hne => exact (h.recorded id).trans (holds_of_ne hne true).symm
  bound w' hw' session' hsession' := by
    rw [sessionIn_cons] at hsession'
    rw [Array.getElem?_modify]
    split at hsession'
    · next heq =>
      obtain rfl := Option.some.inj hsession'
      have hchannel := (h.apart w hw w' hw').1 heq
      rw [if_pos hchannel, Array.getElem?_eq_getElem (hplaced.placed w' hw')]
      exact ⟨_, rfl, readsAndWrites_boundTo _ _⟩
    · next hne =>
      -- channels are apart, so nothing is bound on the channel of another worker
      rw [if_neg fun hchannel => hne ((h.apart w hw w' hw').2 hchannel)]
      exact h.bound w' hw' session' hsession'
  alternates id := by
    refine ⟨?_, h.alternates id⟩
    rintro rfl -
    rw [← h.recorded, hnone]
    rfl

/-- A worker is ended. -/
lemma terminate (h : Books k ws log v names) (id : UInt64) :
    Books k ws (.ended id :: log) { v with terminals := v.terminals.filter (·.1 != id) } names where
  next := h.next
  given p hp := h.given p (List.mem_of_mem_filter hp)
  numbered := h.numbered
  apart := h.apart
  recorded id' := by
    rw [sessionIn_filter]
    split
    · next heq => simp [holds, heq]
    · next hne => simp [holds, hne, h.recorded]
  bound w hw session hsession := by
    rw [sessionIn_filter] at hsession
    split at hsession
    · cases hsession
    · exact h.bound w hw session hsession
  alternates := h.alternates

/-- A worker was to be started, and maybe has a terminal. A number may have been given out. -/
lemma started {o : WorkerOptions} {r : Option (Except WorkerError Worker)} {v' : Roster}
    {names' : Array (Target → Option HostMethod)} (h : Books k ws log v names)
    (hplaced : Placed ws v names) (hk : k < 2 ^ 64) (hstarted : Started v names o r v' names') :
    ∃ k' ≤ k + 1, Books k' (begun r ++ ws) (opening o r ++ log) v' names' := by
  have hopening : ∀ r', begun r' = [] → opening o r' = [] := fun r' hnone => by
    rw [opening, hnone, List.map_nil, ite_self]
  cases hstarted with
  | @failed e _ _ hspent =>
    rw [hopening _ rfl]
    cases hspent with
    | nothing => exact ⟨k, Nat.le_succ k, h⟩
    | channel f => exact ⟨k + 1, Nat.le_refl _, h.push hplaced f .null⟩
    | handle f =>
      rw [filter_terminals_eq_self (h.sessionIn_next hk)]
      exact ⟨k + 1, Nat.le_refl _, h.push hplaced f .null⟩
  | waits f config =>
    rw [hopening _ rfl]
    exact ⟨k + 1, Nat.le_refl _, h.push hplaced f config⟩
  | plain f hid hchannel hconfig hterminal =>
    rw [opening, hterminal]
    exact ⟨k + 1, Nat.le_refl _, h.start hplaced hk f hid hchannel⟩
  | attached f session hid hchannel hconfig hterminal =>
    rw [opening, if_pos (Option.isSome_iff_ne_none.2 hterminal)]
    refine ⟨k + 1, Nat.le_refl _, (h.start hplaced hk f hid hchannel).attach
      (hplaced.start f hchannel) List.mem_cons_self ?_⟩
    rw [hid]
    exact h.sessionIn_next hk
  | refused f hid hchannel hconfig hsession => exact absurd (h.sessionIn_next hk) hsession

end Books
end

variable {n : ℕ} {ws : List Worker} {log : List TerminalEvent} {y : Environment} {w : Worker}

/-- Whatever was done, every worker has its place, and the books are in order as long as no number
was given out twice. -/
lemma History.books (h : History n ws log y) : ∃ v names, Placed ws v names ∧
    Undisturbed v names y ∧ (n ≤ 2 ^ 64 → ∃ k ≤ n, Books k ws log v names) := by
  induction h with
  | new role settings files =>
    exact ⟨_, _, .new, .new role settings files, fun _ => ⟨0, Nat.le_refl 0, .new⟩⟩
  | progress fuel _ ih =>
    obtain ⟨v, names, hplaced, hy, hbooks⟩ := ih
    exact ⟨v, names, hplaced, hy.progress fuel, hbooks⟩
  | work hs _ ih =>
    obtain ⟨v, names, hplaced, hy, hbooks⟩ := ih
    exact ⟨v, names, hplaced, hy.work (hs.trans hy.network.state), hbooks⟩
  | create source hmethods _ ih =>
    obtain ⟨v, names, hplaced, hy, hbooks⟩ := ih
    obtain ⟨v', names', hstarted, hy'⟩ := createWorker_started source hmethods hplaced.size hy
    refine ⟨v', names', hplaced.started hstarted, hy', fun hn => ?_⟩
    obtain ⟨k, hk, hbooks⟩ := hbooks (by omega)
    obtain ⟨k', hk', hbooks'⟩ := hbooks.started hplaced (by omega) hstarted
    exact ⟨k', by omega, hbooks'⟩
  | @attach n ws log y w hw terminal _ ih =>
    obtain ⟨v, names, hplaced, hy, hbooks⟩ := ih
    cases hsession : sessionIn v w.id with
    | none =>
      have hnone := (hy.sessionOf? _).trans hsession
      have hanswer := congrArg Prod.fst (attachTerminal_of_none hnone terminal)
      rw [hanswer]
      refine ⟨_, _, hplaced.attach _ _ _, hy.attach hnone terminal, fun hn => ?_⟩
      obtain ⟨k, hk, hbooks⟩ := hbooks hn
      exact ⟨k, hk, hbooks.attach hplaced hw hsession⟩
    | some session =>
      rw [attachTerminal_of_some ((hy.sessionOf? _).trans hsession)]
      refine ⟨v, names, hplaced, hy, fun hn => ?_⟩
      obtain ⟨k, hk, hbooks⟩ := hbooks hn
      exact ⟨k, hk, hbooks.refuse _⟩
  | @terminate n ws log y w hw _ ih =>
    obtain ⟨v, names, hplaced, hy, hbooks⟩ := ih
    refine ⟨{ v with terminals := v.terminals.filter (·.1 != w.id) }, names,
      ⟨hplaced.size, hplaced.placed, hplaced.configured⟩, hy.terminate w, fun hn => ?_⟩
    obtain ⟨k, hk, hbooks⟩ := hbooks hn
    exact ⟨k, hk, hbooks.terminate _⟩
  | run hw code mode _ ih =>
    obtain ⟨v, names, hplaced, hy, hbooks⟩ := ih
    exact ⟨v, names, hplaced, hy.run _ code mode, hbooks⟩
  | call hw target args _ ih =>
    obtain ⟨v, names, hplaced, hy, hbooks⟩ := ih
    exact ⟨v, names, hplaced, hy.call _ target args, hbooks⟩
  | finished hw _ ih =>
    obtain ⟨v, names, hplaced, hy, hbooks⟩ := ih
    exact ⟨v, names, hplaced, hy.await _, hbooks⟩
  | onTerminal hw f _ ih =>
    obtain ⟨v, names, hplaced, hy, hbooks⟩ := ih
    exact ⟨v, names, hplaced, hy.onTerminal _ f, hbooks⟩

/-- The next worker has no terminal before it is started, as long as its number is new. -/
lemma History.sessionOf?_next (h : History n ws log y) (hn : n < 2 ^ 64) :
    y.state.sessionOf? y.state.nextWorker = none := by
  obtain ⟨v, names, -, hy, hbooks⟩ := h.books
  obtain ⟨k, hk, hbooks⟩ := hbooks hn.le
  have hnext : y.state.nextWorker = v.nextWorker := congrArg Roster.nextWorker hy.network.state
  rw [hy.sessionOf?, hnext]
  exact hbooks.sessionIn_next (by omega)

/-- Who has a terminal is what happened to the terminals. -/
lemma History.recorded (h : History n ws log y) (hn : n ≤ 2 ^ 64) (id : UInt64) :
    (y.state.sessionOf? id).isSome = holds id log := by
  obtain ⟨v, names, -, hy, hbooks⟩ := h.books
  obtain ⟨k, -, hbooks⟩ := hbooks hn
  rw [hy.sessionOf?]
  exact hbooks.recorded id

lemma History.sessionOf?_eq_none (h : History n ws log y) (hn : n ≤ 2 ^ 64) {id : UInt64}
    (hfree : holds id log = false) : y.state.sessionOf? id = none := by
  have hnone := Option.isSome_eq_false_iff.1 ((h.recorded hn id).trans hfree)
  exact Option.isNone_iff_eq_none.1 hnone

/-- A worker that has no terminal gets the next one. -/
lemma History.attachTerminal (h : History n ws log y) (hn : n ≤ 2 ^ 64) (hw : w ∈ ws)
    (hfree : holds w.id log = false) (terminal : String) :
    ∃ y', (attachTerminal w terminal).run y = (true, y') ∧
      History n ws (.attached w.id true :: log) y' := by
  have hattach := attachTerminal_of_none (h.sessionOf?_eq_none hn hfree) terminal
  have hattached := h.attach hw terminal
  rw [hattach] at hattached
  exact ⟨_, hattach, hattached⟩

/-! ## A worker that is started -/

/-- Threads that have not ended stay. -/
lemma reap_eq_self (h : ∀ c ∈ y.channels, c.thread.map (·.base) ≠ some .ended) : y.reap = y := by
  have hchannels : y.reap.channels = y.channels := by
    refine Array.ext_getElem? fun i => ?_
    show (y.channels.map _)[i]? = _
    rw [Array.getElem?_map]
    cases hc : y.channels[i]? with
    | none => rfl
    | some c =>
      have hne := h c (Array.mem_of_getElem? hc)
      rw [Option.map_some]
      split
      · next hended => exact absurd hended hne
      · rfl
  calc
    y.reap = { y with channels := y.reap.channels } := rfl
    _ = y := by rw [hchannels]

/-- Where nothing is possible, nothing happens. -/
lemma settle_eq_self (hstep : Network.step? environmentPrograms y = none) (hreap : y.reap = y) :
    settle.run y = ((), y) := by
  have hrests : Network.settle environmentPrograms Network.stepLimit y = y := by
    rw [Network.stepLimit, Network.settle, hstep]
  show ((), Network.settle environmentPrograms _ (reap (Network.settle environmentPrograms _ y))) =
    ((), y)
  rw [hrests, hreap, hrests]

/-- A worker that is prepared, and ready when nothing more happens, is started. -/
lemma createWorker_of_ready {source : SourceRef} {o : WorkerOptions} {code : String}
    {y₁ y₂ : Environment} (hprepare : (prepare source o).run.run y = (.ok (w, code), y₁))
    (hsettle : settle.run y₁ = ((), y₂)) (hready : isReady y₂ w.channel = true) :
    ∃ w' y', (createWorker source o).run y = (some (.ok w'), y') := by
  unfold createWorker
  rw [run_bind_of_run hprepare, run_bind_of_run hsettle, run_bind_of_run (run_get y₂), hready]
  cases o.terminal <;> exact ⟨_, _, rfl⟩

/-- The environment of a host that has done nothing. -/
def idle : Environment :=
  .new .host .default ⟨⟨[], []⟩, none⟩

lemma createWorker_idle : ∃ w y,
    (createWorker (.inline "") default).run idle = (some (.ok w), y) := by
  obtain ⟨w, y, hprepare, hchannels, hready, hstep⟩ : ∃ w y,
      (prepare (.inline "") default).run.run idle = (.ok (w, ""), y) ∧
      (∃ c, y.channels = #[c] ∧ c.thread.map (·.base) = some (.finished ())) ∧
      isReady y w.channel = true ∧ Network.step? environmentPrograms y = none :=
    ⟨_, _, (run_prepare _ _ _).trans rfl, ⟨_, rfl, rfl⟩, rfl, rfl⟩
  obtain ⟨c, hc, hfinished⟩ := hchannels
  refine createWorker_of_ready hprepare (settle_eq_self hstep (reap_eq_self ?_)) hready
  rw [hc]
  intro c' hc'
  rw [Array.mem_singleton.1 hc', hfinished]
  nofun

lemma history_idle : ∃ w y,
    (createWorker (.inline "") default).run idle = (some (.ok w), y) ∧ History 1 [w] [] y := by
  obtain ⟨w, y, hcreate⟩ := createWorker_idle
  have hmethods : ∀ m ∈ (default : WorkerOptions).methods, m.2.Modest := List.forall_mem_nil _
  have hidle : History 0 [] [] idle := .new _ _ _
  have hcreated := hidle.create (.inline "") hmethods
  rw [hcreate] at hcreated
  exact ⟨w, y, hcreate, hcreated⟩

end Environment
end WorkerHost
