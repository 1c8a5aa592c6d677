import WorkerHost.Channel.Api
import WorkerHost.Proofs.Shell.Lockstep

/-!
# What a script and its console say to each other

`Console.asking` is the console that leaves everything to its surroundings. The courses of a script
on it are the conversations that the script can have with any console: what it wrote, asked for and
called, with the answers, in order.

`Shell.Converses.flushed`: a script that ends with a value has flushed its output after everything
that it wrote.
-/

namespace WorkerHost

/-- What a script asks of its console. -/
inductive ConsoleAsk where
  | write (data : String)
  | writeByte (b : UInt8)
  | flush
  | writeError (data : String)
  | flushError
  | readLine (prompt : Option String)
  | call (f : Function) (args : List Value)
  | display (v : Value)

/-- The answers to a question. -/
abbrev ConsoleAsk.Answer : ConsoleAsk → Type
  | write _ | writeByte _ | flush | writeError _ | flushError => Except StreamError Unit
  | readLine _ => Except StreamError (Option String)
  | call .. => Except String Value
  | display _ => String

/-- A question of a script and the answer to it. -/
abbrev ConsoleExchange := (q : ConsoleAsk) × q.Answer

namespace ConsoleExchange

/-- The bytes that an exchange writes to a stream. -/
def bytes : Stream → ConsoleExchange → List UInt8
  | .stdout, ⟨.write data, .ok ()⟩ => Text.Utf8.ofString data
  | .stdout, ⟨.writeByte b, .ok ()⟩ => [b]
  | .stderr, ⟨.writeError data, .ok ()⟩ => Text.Utf8.ofString data
  | _, _ => []

/-- What a sink that collects bytes up to the next newline holds back of the output after an
exchange: a whole text or a flush takes what is there along. -/
def heldBack : List UInt8 → ConsoleExchange → List UInt8
  | _, ⟨.write _, _⟩ | _, ⟨.flush, _⟩ => []
  | left, ⟨.writeByte b, _⟩ => if b = 10 then [] else left ++ [b]
  | left, _ => left

end ConsoleExchange

/-- The console that leaves everything to its surroundings. -/
def Console.asking : Console (Task Unit ConsoleAsk ConsoleAsk.Answer) where
  write data := ask (.write data)
  writeByte b := ask (.writeByte b)
  flush := ask .flush
  writeError data := ask (.writeError data)
  flushError := ask .flushError
  readLine prompt := ask (.readLine prompt)
  call f args := ask (.call f args)
  display v := ask (.display v)
where
  ask (q : ConsoleAsk) : Task Unit ConsoleAsk ConsoleAsk.Answer q.Answer := Task.ask q

/-- The exchanges of a computation on such a console, and its result. -/
def Task.Exchanges {α : Type} (x : Task Unit ConsoleAsk ConsoleAsk.Answer α)
    (es : List ConsoleExchange) (a : α) : Prop :=
  (x ()).Course (fun _ _ => True) es a ()

namespace Task.Exchanges
variable {α β : Type} {x : Task Unit ConsoleAsk ConsoleAsk.Answer α}
  {f : α → Task Unit ConsoleAsk ConsoleAsk.Answer β} {es es' : List ConsoleExchange} {a : α} {b : β}

lemma pure (a : α) : Exchanges (Pure.pure a) [] a := .done a ()

lemma asked (q : ConsoleAsk) (r : q.Answer) :
    Exchanges (Console.asking.ask q) [⟨q, r⟩] r :=
  Step.Course.ask r trivial (.done r ())

lemma of_asked {q : ConsoleAsk} {r : q.Answer} (h : Exchanges (Console.asking.ask q) es r) :
    es = [⟨q, r⟩] := by
  cases h with
  | ask r _ hrest =>
    cases hrest
    rfl

lemma bind (hx : Exchanges x es a) (hf : Exchanges (f a) es' b) :
    Exchanges (x >>= f) (es ++ es') b :=
  Step.course_bind.2 ⟨es, a, (), es', rfl, hx, hf⟩

lemma of_bind (h : Exchanges (x >>= f) es b) :
    ∃ first a rest, es = first ++ rest ∧ Exchanges x first a ∧ Exchanges (f a) rest b := by
  obtain ⟨first, a, _, rest, hes, hx, hf⟩ := Step.course_bind.1 h
  exact ⟨first, a, rest, hes, hx, hf⟩

end Task.Exchanges

namespace Shell
variable {α β : Type} {es : List ConsoleExchange} {s s' : Shell}

/-- A script in a shell can have a conversation with its console, with a value or error at the end
and a shell after it. -/
def Converses (s : Shell) (code : String) (es : List ConsoleExchange)
    (r : Except InterpreterError Value) (s' : Shell) : Prop :=
  Task.Exchanges (run Console.asking code s) es (r, s')

/-- Steps that succeed one after the other. -/
lemma exchanges_of_bind {x : LineM (Task Unit ConsoleAsk ConsoleAsk.Answer) α}
    {f : α → LineM (Task Unit ConsoleAsk ConsoleAsk.Answer) β} {b : β}
    (h : Task.Exchanges ((x >>= f).run.run s) es (.ok b, s')) :
    ∃ first a s₁ rest, es = first ++ rest ∧ Task.Exchanges (x.run.run s) first (.ok a, s₁) ∧
      Task.Exchanges ((f a).run.run s₁) rest (.ok b, s') := by
  obtain ⟨first, ⟨a | a, s₁⟩, rest, hes, hx, hf⟩ := Task.Exchanges.of_bind h
  · cases hf
  · exact ⟨first, a, s₁, rest, hes, hx, hf⟩

/-- A step that asks the console. -/
lemma exchanges_of_lift {x : Task Unit ConsoleAsk ConsoleAsk.Answer α} {a : α}
    (h : Task.Exchanges ((liftM x : LineM _ α).run.run s) es (.ok a, s')) :
    Task.Exchanges x es a := by
  obtain ⟨first, p, rest, rfl, hlift, hrest⟩ := Task.Exchanges.of_bind h
  obtain ⟨first, b, rest', rfl, hx, hrest'⟩ := Task.Exchanges.of_bind hlift
  cases hrest'
  cases hrest
  simpa using hx

/-- A step that uses a stream, and succeeds. -/
lemma exchanges_of_stream {x : Task Unit ConsoleAsk ConsoleAsk.Answer (Except StreamError α)}
    {a : α} (h : Task.Exchanges ((stream x).run.run s) es (.ok a, s')) :
    Task.Exchanges x es (.ok a) := by
  obtain ⟨first, r, s₁, rest, rfl, hx, hr⟩ := exchanges_of_bind h
  cases r with
  | error e => cases hr
  | ok b =>
    cases hr
    simpa using exchanges_of_lift hx

/-- A script that ends with a value has flushed its streams after everything that it wrote. -/
theorem Converses.flushed {code : String} {v : Value} (h : s.Converses code es (.ok v) s') :
    ∃ before, es = before ++ [⟨.flush, .ok ()⟩, ⟨.flushError, .ok ()⟩] := by
  obtain ⟨lines, last, s₁, rest, rfl, -, hrest⟩ := exchanges_of_bind h
  obtain ⟨out, _, s₂, rest, rfl, hout, hrest⟩ := exchanges_of_bind hrest
  obtain ⟨err, _, s₃, rest, rfl, herr, hrest⟩ := exchanges_of_bind hrest
  cases hrest
  refine ⟨lines, ?_⟩
  rw [Task.Exchanges.of_asked (exchanges_of_stream hout),
    Task.Exchanges.of_asked (exchanges_of_stream herr)]
  rfl

end Shell
end WorkerHost
