import WorkerHost.Proofs.Task
import WorkerHost.Shell.Run

/-!
# Scripts on two consoles

A script knows nothing of its console but what the console answers. If the operations of two
consoles are related, so are all runs of scripts on them: `Console.Lockstep.run`. A text that is
put byte by byte counts as one operation, as a console need not keep to characters in the middle of
it.
-/

namespace WorkerHost
variable {m n : Type → Type} [Monad m] [Monad n] {α : Type}

open Shell

/-! ## Steps of a line -/

namespace MonadRel
variable (R : MonadRel m n)

/-- Steps of a line are related if they are so from every shell. -/
def line : MonadRel (LineM m) (LineM n) where
  rel x y := ∀ s, R.rel (x.run.run s) (y.run.run s)
  pure a s := R.pure (Except.ok a, s)
  bind {_ _ x y f g} hx hf s := by
    refine R.bind (hx s) ?_
    rintro ⟨a | e, s⟩
    · exact R.pure _
    · exact hf _ s

variable {R}

lemma line_lift {x : m α} {y : n α} (h : R.rel x y) : R.line.rel (liftM x) (liftM y) :=
  fun s => R.bind (R.bind h fun a => R.pure (a, s)) fun p => R.pure (Except.ok p.1, p.2)

lemma line_throw (e : InterpreterError) :
    R.line.rel (throw e : LineM m α) (throw e : LineM n α) :=
  fun s => R.pure (Except.error e, s)

lemma line_get : R.line.rel (get : LineM m Shell) (get : LineM n Shell) :=
  fun s => R.bind (R.pure (s, s)) fun p => R.pure (Except.ok p.1, p.2)

lemma line_modify (f : Shell → Shell) :
    R.line.rel (modify f : LineM m PUnit) (modify f : LineM n PUnit) :=
  fun s => R.bind (R.pure ((), f s)) fun p => R.pure (Except.ok p.1, p.2)

lemma line_stream {x : m (Except StreamError α)} {y : n (Except StreamError α)} (h : R.rel x y) :
    R.line.rel (stream x) (stream y) := by
  refine R.line.bind (line_lift h) fun r => ?_
  cases r with
  | ok a => exact R.line.pure a
  | error e => exact line_throw _

/-- What follows a check is related if it is so when the check lets it through. -/
lemma line_guard {p : Prop} [Decidable p] (e : InterpreterError) {x : PUnit → LineM m α}
    {y : PUnit → LineM n α} (h : ∀ u, R.line.rel (x u) (y u)) :
    R.line.rel (if p then throw e >>= x else x ()) (if p then throw e >>= y else y ()) := by
  split
  · exact R.line.bind (line_throw e) h
  · exact h ()

end MonadRel

/-- What follows the use of a stream is done if the stream did not fail. -/
lemma run_stream_bind [LawfulMonad m] {β : Type} (x : m (Except StreamError α)) (f : α → LineM m β)
    (s : Shell) : (stream x >>= f).run.run s = x >>= fun r =>
      match r with
      | .ok a => (f a).run.run s
      | .error e => pure (.error (streamError e), s) := by
  have hlift : (liftM x : LineM m _).run.run s = (fun r => (Except.ok r, s)) <$> x := by
    simp [liftM, monadLift, MonadLift.monadLift, ExceptT.lift, ExceptT.run, ExceptT.mk, StateT.run,
      StateT.lift, Functor.map, StateT.map]
  simp only [stream, bind_assoc, ExceptT.run_bind, StateT.run_bind, hlift, bind_map_left]
  refine bind_congr fun r => ?_
  cases r <;> simp

/-! ## Runs -/

namespace Console
variable {R : MonadRel m n} {c : Console m} {c' : Console n}

/-- The operations of two consoles are related. -/
structure Lockstep (R : MonadRel m n) (c : Console m) (c' : Console n) : Prop where
  write (data : String) : R.rel (c.write data) (c'.write data)
  put (text : List Char) : R.line.rel (putBytes c (Text.Utf8.encode text))
    (putBytes c' (Text.Utf8.encode text))
  flush : R.rel c.flush c'.flush
  writeError (data : String) : R.rel (c.writeError data) (c'.writeError data)
  flushError : R.rel c.flushError c'.flushError
  readLine (prompt : Option String) : R.rel (c.readLine prompt) (c'.readLine prompt)
  call (f : Function) (args : List Value) : R.rel (c.call f args) (c'.call f args)
  display (v : Value) : R.rel (c.display v) (c'.display v)

namespace Lockstep
variable (h : Lockstep R c c')
include h

lemma callFunction (line : ℕ) (rest : List Char) :
    R.line.rel (callFunction c line rest) (callFunction c' line rest) := by
  unfold Shell.callFunction
  cases Text.words rest with
  | nil => exact MonadRel.line_throw _
  | cons path args =>
    refine R.line.bind MonadRel.line_get fun s => ?_
    cases lookup s line path with
    | error e => exact MonadRel.line_throw e
    | ok f =>
      refine R.line.bind (MonadRel.line_lift (h.call f _)) fun answer => ?_
      cases answer with
      | error text => exact MonadRel.line_throw _
      | ok v =>
        refine R.line.bind (MonadRel.line_lift (h.display v)) fun text => ?_
        exact R.line.bind (MonadRel.line_modify _) fun _ => R.line.pure v

lemma input (line : ℕ) (rest : List Char) :
    R.line.rel (input c line rest) (input c' line rest) := by
  unfold Shell.input
  split
  rename_i name prompt _
  refine MonadRel.line_guard _ fun _ => R.line.bind (MonadRel.line_stream h.flush) fun _ => ?_
  refine R.line.bind (MonadRel.line_stream (h.readLine prompt)) fun answer => ?_
  cases answer with
  | some text => exact MonadRel.line_modify _
  | none => exact MonadRel.line_throw _

lemma execute (line : ℕ) (cmd rest : List Char) :
    R.line.rel (execute c line cmd rest) (execute c' line cmd rest) := by
  unfold Shell.execute
  split
  · exact R.line.bind (MonadRel.line_stream (h.write _)) fun _ => R.line.pure _
  · exact R.line.bind (MonadRel.line_stream (h.writeError _)) fun _ => R.line.pure _
  · exact R.line.bind (h.put rest) fun _ => R.line.pure _
  · exact MonadRel.line_guard _ fun _ =>
      R.line.bind (MonadRel.line_modify _) fun _ => R.line.pure none
  · exact R.line.bind (h.input line rest) fun _ => R.line.pure _
  · exact R.line.bind (h.callFunction line rest) fun _ => R.line.pure _
  · exact MonadRel.line_throw _
  · exact MonadRel.line_throw _

lemma executeLine (line : ℕ) (raw : List Char) :
    R.line.rel (executeLine c line raw) (executeLine c' line raw) := by
  unfold Shell.executeLine
  cases command? raw with
  | none => exact R.line.pure none
  | some command =>
    obtain ⟨cmd, rest⟩ := command
    refine R.line.bind MonadRel.line_get fun s => ?_
    cases s.expand rest with
    | error e => exact MonadRel.line_throw e
    | ok rest => exact h.execute line cmd rest

lemma executeLines (n : ℕ) (last : Value) (lines : List (List Char)) :
    R.line.rel (executeLines c n last lines) (executeLines c' n last lines) := by
  induction lines generalizing n last with
  | nil => exact R.line.pure last
  | cons line rest ih => exact R.line.bind (h.executeLine n line) fun v => ih _ _

/-- Runs of a script on related consoles are related. -/
theorem run (code : String) (s : Shell) : R.rel (run c code s) (run c' code s) := by
  refine R.line.bind (h.executeLines 1 .null _) (fun last => ?_) s
  refine R.line.bind (MonadRel.line_stream h.flush) fun _ => ?_
  exact R.line.bind (MonadRel.line_stream h.flushError) fun _ => R.line.pure last

end Lockstep
end Console
end WorkerHost
