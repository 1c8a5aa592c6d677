import WorkerHost.Proofs.Environment.History

/-!
# How often a worker gets a terminal

Over everything that is done with an environment, as long as the numbers of workers have not come
round, a worker has a terminal if one was attached since it was last ended, and another takes effect
exactly if it has none: `terminals_one_at_a_time`. So between any two that take effect the worker
was ended, and one that is never ended gets at most one.

Ending a worker takes back the record that refuses the second terminal. A worker that has been ended
gets another one, and keeps it: `not_one_terminal_ever`.
-/

namespace WorkerHost

namespace TerminalEvent

/-- How many terminals took effect. -/
def attachments (id : UInt64) (log : List TerminalEvent) : ℕ :=
  log.count (attached id true)

/-- How often the worker was ended. -/
def endings (id : UInt64) (log : List TerminalEvent) : ℕ :=
  log.count (ended id)

variable {id : UInt64} {log earlier : List TerminalEvent}

/-- There are hardly more terminals that take effect than endings. -/
lemma Alternates.attachments_le (h : Alternates id log) :
    attachments id log ≤ endings id log + if holds id log then 1 else 0 := by
  induction log with
  | nil => simp [attachments]
  | cons event log ih =>
    cases event with
    | attached worker effective =>
      obtain ⟨hfree, hlog⟩ := h
      have hle := ih hlog
      by_cases htook : worker = id ∧ effective = true
      · obtain ⟨rfl, rfl⟩ := htook
        -- it has taken effect, so there was none before and one more is allowed
        rw [hfree rfl rfl] at hle
        rw [holds_attached]
        simpa [attachments, endings] using hle
      · have hholds : holds id (attached worker effective :: log) = holds id log := by
          simpa [holds] using fun hid heffective => absurd ⟨hid, heffective⟩ htook
        have hcount : attachments id (attached worker effective :: log) = attachments id log := by
          simpa [attachments, List.count_cons] using htook
        rw [hholds, hcount]
        simpa [endings] using hle
    | ended worker =>
      have hle := ih h
      by_cases hid : worker = id
      · subst hid
        simp only [attachments, endings, holds, List.count_cons] at hle ⊢
        simp only [reduceCtorEq, beq_iff_eq, if_false, if_true]
        split at hle <;> simp <;> omega
      · simp only [attachments, endings, holds, List.count_cons] at hle ⊢
        simpa [hid] using hle

/-- A worker that had a terminal and has none was ended. -/
lemma ended_mem_of_not_holds (h : holds id (log ++ attached id true :: earlier) = false) :
    ended id ∈ log := by
  induction log with
  | nil => exact absurd (holds_attached.symm.trans h) Bool.noConfusion
  | cons event log ih =>
    cases event with
    | attached worker effective =>
      obtain ⟨-, hlog⟩ := Bool.or_eq_false_iff.1 h
      exact List.mem_cons_of_mem _ (ih hlog)
    | ended worker =>
      by_cases hid : worker = id
      · subst hid
        exact List.mem_cons_self
      · exact List.mem_cons_of_mem _ (ih (by simpa [holds, hid] using h))

/-- Between two terminals that take effect, the worker is ended. -/
lemma Alternates.between {later : List TerminalEvent}
    (h : Alternates id (later ++ attached id true :: (log ++ attached id true :: earlier))) :
    ended id ∈ log := by
  induction later with
  | nil => exact ended_mem_of_not_holds (h.1 rfl rfl)
  | cons event later ih =>
    cases event with
    | attached worker effective => exact ih h.2
    | ended worker => exact ih h

end TerminalEvent

namespace Environment
open TerminalEvent

variable {n : ℕ} {ws : List Worker} {log : List TerminalEvent} {y : Environment} {w : Worker}

/-- What holds of the terminals of a worker after what was done so far. -/
structure OneAtATime (w : Worker) (log : List TerminalEvent) (y : Environment) : Prop where
  /-- it has one if one was attached since the worker was last ended -/
  recorded : (y.state.sessionOf? w.id).isSome = holds w.id log
  /-- its reads and writes go there -/
  bound : ∀ session, y.state.sessionOf? w.id = some session →
    ∃ c, y.channels[w.channel]? = some c ∧ ReadsAndWrites session c.host.handlerFor
  /-- then another is refused, and nothing happens -/
  refuses : holds w.id log = true → ∀ terminal, (attachTerminal w terminal).run y = (false, y)
  /-- otherwise the next one is its terminal, with a session of its own; all other workers keep
  theirs -/
  accepts : holds w.id log = false → ∀ terminal, ∃ y',
    (attachTerminal w terminal).run y = (true, y') ∧
    y'.state.sessions =
      y.state.sessions.push (.new terminal y.state.settings.terminalEcho) ∧
    y'.state.sessionOf? w.id = some y.state.sessions.size ∧
    ∀ id, id ≠ w.id → y'.state.sessionOf? id = y.state.sessionOf? id
  /-- between two that took effect the worker was ended -/
  between : ∀ later middle earlier,
    log = later ++ .attached w.id true :: (middle ++ .attached w.id true :: earlier) →
      .ended w.id ∈ middle
  /-- so while it is not ended there is at most one -/
  once : attachments w.id log ≤ endings w.id log + 1

/-- Over everything that is done with an environment, each worker has one terminal at a time, and
gets another one only after it was ended. -/
theorem terminals_one_at_a_time (h : History n ws log y) (hn : n ≤ 2 ^ 64) (hw : w ∈ ws) :
    OneAtATime w log y := by
  obtain ⟨v, names, -, hy, hbooks⟩ := h.books
  obtain ⟨k, -, hbooks⟩ := hbooks hn
  refine ⟨h.recorded hn w.id, fun session hsome => ?_, fun hholds terminal => ?_,
    fun hfree terminal => ?_, fun later middle earlier hlog => ?_, ?_⟩
  · obtain ⟨f, hf, hbound⟩ := hbooks.bound w hw session (hy.sessionOf? w.id ▸ hsome)
    rw [← hy.network.named, Array.getElem?_map] at hf
    obtain ⟨c, hc, rfl⟩ := Option.map_eq_some_iff.1 hf
    exact ⟨c, hc, hbound⟩
  · obtain ⟨session, hsome⟩ := Option.isSome_iff_exists.1 ((h.recorded hn w.id).trans hholds)
    exact attachTerminal_of_some hsome terminal
  · have hnone := h.sessionOf?_eq_none hn hfree
    have hattached := hy.attach hnone terminal
    rw [attachTerminal_of_none hnone] at hattached
    refine ⟨_, attachTerminal_of_none hnone terminal, rfl, ?_, fun id hne => ?_⟩
    · rw [hattached.sessionOf?]
      exact sessionIn_cons.trans (if_pos rfl)
    · rw [hattached.sessionOf?, hy.sessionOf?]
      exact sessionIn_cons.trans (if_neg hne.symm)
  · exact (hlog ▸ hbooks.alternates w.id).between
  · have hle := (hbooks.alternates w.id).attachments_le
    split at hle <;> omega

theorem terminals_one_at_a_time_idle : ∃ w y,
    History 1 [w] [.attached w.id true] y ∧ OneAtATime w [.attached w.id true] y := by
  obtain ⟨w, y, -, h⟩ := history_idle
  obtain ⟨y', -, h'⟩ := h.attachTerminal (by decide) List.mem_cons_self rfl "a"
  exact ⟨w, y', h', terminals_one_at_a_time h' (by decide) List.mem_cons_self⟩

/-- A worker is given a terminal, it is ended, and then it is given another one and keeps it. -/
theorem not_one_terminal_ever : ∃ session, ((do
    let some (.ok w) ← createWorker (.inline "") default | return none
    let first ← attachTerminal w "a"
    terminate w
    let second ← attachTerminal w "b"
    return some (first, second, (← get).state.sessionOf? w.id) :
    StateM Environment (Option (Bool × Bool × Option ℕ))).run idle).1 =
      some (true, true, some session) := by
  obtain ⟨w, y₁, hcreate, h₁⟩ := history_idle
  obtain ⟨y₂, hfirst, h₂⟩ := h₁.attachTerminal (by decide) List.mem_cons_self rfl "a"
  obtain ⟨y₃, hterminate⟩ : ∃ y₃, (terminate w).run y₂ = ((), y₃) := ⟨_, rfl⟩
  have h₃ : History 1 [w] [.ended w.id, .attached w.id true] y₃ := by
    have hended := h₂.terminate List.mem_cons_self
    rwa [hterminate] at hended
  -- the session is forgotten, so the second terminal is not refused
  obtain ⟨y₄, hsecond, h₄⟩ := h₃.attachTerminal (by decide) List.mem_cons_self (by simp [holds]) "b"
  obtain ⟨session, hsession⟩ :=
    Option.isSome_iff_exists.1 ((h₄.recorded (by decide) w.id).trans holds_attached)
  refine ⟨session, ?_⟩
  rw [run_bind_of_run hcreate]
  dsimp only
  rw [run_bind_of_run hfirst, run_bind_of_run hterminate, run_bind_of_run hsecond,
    run_bind_of_run (run_get y₄), hsession]
  rfl

end Environment
end WorkerHost
