import WorkerHost.Channel.Host
import WorkerHost.Channel.Worker
/-!
Hosts, workers and the tasks of the host, joined by links. A network moves by small steps: a task
goes on because what it waits for is there, a worker thread moves, or the host takes a message.
Which of the possible steps comes first is fixed, and `settle` makes steps until none is possible.
-/

namespace WorkerHost

/-- What a task of the host asks. -/
inductive HostAsk where
  /-- the outcome of a call over a channel -/
  | call (channel : Nat) (target : Target) (args : List Value)
  /-- the line that a read of a terminal session yields -/
  | line (session read : Nat)
  /-- that so many milliseconds pass -/
  | sleep (millis : Nat)
  /-- what never comes -/
  | never

/-- The answers to the questions of a task. A read that another one replaced yields no line. -/
def HostAsk.Answer : HostAsk → Type
  | .call .. => CallOutcome
  | .line .. => Option String
  | .sleep _ => Unit
  | .never => Empty

/-- A task of the host. -/
abbrev HostTask (σ α : Type) := Task σ HostAsk HostAsk.Answer α

/-- How far a task of the host has come. -/
abbrev HostStep (σ α : Type) := Step σ HostAsk HostAsk.Answer α

/-- What a task waits for, and how it goes on. -/
inductive Waiting (σ α : Type) where
  | call (channel : Nat) (id : CallId) (resume : CallOutcome → σ → HostStep σ α)
  | line (session read : Nat) (resume : Option String → σ → HostStep σ α)
  | never

/-- One channel of a network, with the thread at its worker end if there is one. -/
structure Channel (σ HH WH β : Type) where
  host : HostEndpoint HH
  link : Link
  thread : Option (WorkerThread σ WH β)

/-- The worker's end goes away, and with it the thread if there is one. -/
def Channel.dropWorker {σ HH WH β : Type} (c : Channel σ HH WH β) : Channel σ HH WH β :=
  { c with link := c.link.dropWorker, thread := none }

/-- A task that serves an inbound call. -/
structure Serving (σ : Type) where
  channel : Nat
  id : CallId
  waiting : Waiting σ (Except RemoteError Value)

/-- A task of the host's own. -/
structure Running (σ ρ : Type) where
  ticket : Nat
  waiting : Waiting σ ρ

/-- What the handlers of a network do, and how a state tells whether a read has ended. -/
structure Programs (σ HH WH : Type) where
  host : Nat → HH → List Value → HostTask σ (Except RemoteError Value)
  worker : Nat → WorkerPrograms σ WH
  lineOf : σ → Nat → Nat → Option (Option String)

/-- Channels, tasks and a state that they all work on. -/
structure Network (σ HH WH β ρ : Type) where
  state : σ
  channels : Array (Channel σ HH WH β)
  serving : List (Serving σ)
  running : List (Running σ ρ)
  results : List (Nat × ρ)
  nextTicket : Nat

namespace Network
variable {σ HH WH β ρ : Type} [HasHeap σ]

def new (state : σ) : Network σ HH WH β ρ :=
  ⟨state, #[], [], [], [], 0⟩

/-- Changes a channel. -/
def setChannel (y : Network σ HH WH β ρ) (i : Nat) (c : Channel σ HH WH β) : Network σ HH WH β ρ :=
  { y with channels := y.channels.setIfInBounds i c }

/-- Runs a task until it waits or ends. A call that can not be sent fails at once, and time passes
at once. -/
def runStep {α : Type} (y : Network σ HH WH β ρ) :
    HostStep σ α → (α ⊕ Waiting σ α) × Network σ HH WH β ρ
  | .done a s => (.inl a, { y with state := s })
  | .ask (.call i target args) s resume =>
    let y := { y with state := s }
    match y.channels[i]? with
    | none => runStep y (resume (.error .closed) s)
    | some c =>
      match c.host.startCall c.link (HasHeap.heap s) target args with
      | (.ok id, host, link) =>
        (.inr (.call i id resume), y.setChannel i { c with host := host, link := link })
      | (.error e, host, link) =>
        runStep (y.setChannel i { c with host := host, link := link }) (resume (.error e) s)
  | .ask (.line session read) s resume =>
    (.inr (.line session read resume), { y with state := s })
  | .ask (.sleep _) s resume => runStep y (resume () s)
  | .ask .never s _ => (.inr .never, { y with state := s })

/-- Goes on with a task that serves a call. When it ends, its outcome is sent. -/
def continueServing (y : Network σ HH WH β ρ) (channel : Nat) (id : CallId)
    (step : HostStep σ (Except RemoteError Value)) : Network σ HH WH β ρ :=
  match runStep y step with
  | (.inl outcome, y) =>
    match y.channels[channel]? with
    | some c =>
      let m := answerTo (HasHeap.heap y.state) id outcome
      y.setChannel channel { c with link := HostEndpoint.post c.link m }
    | none => y
  | (.inr waiting, y) => { y with serving := y.serving ++ [⟨channel, id, waiting⟩] }

/-- Goes on with a task of the host's own. -/
def continueRunning (y : Network σ HH WH β ρ) (ticket : Nat) (step : HostStep σ ρ) :
    Network σ HH WH β ρ :=
  match runStep y step with
  | (.inl r, y) => { y with results := y.results ++ [(ticket, r)] }
  | (.inr waiting, y) => { y with running := y.running ++ [⟨ticket, waiting⟩] }

/-- Starts a task. -/
def spawn (y : Network σ HH WH β ρ) (task : HostTask σ ρ) : Nat × Network σ HH WH β ρ :=
  let ticket := y.nextTicket
  let y := { y with nextTicket := ticket + 1 }
  (ticket, y.continueRunning ticket (task y.state))

/-- Forgets a task. The calls it has sent stay pending. -/
def abandon (y : Network σ HH WH β ρ) (ticket : Nat) : Network σ HH WH β ρ :=
  { y with running := y.running.filter (·.ticket != ticket) }

/-- The result of a task. -/
def result? (y : Network σ HH WH β ρ) (ticket : Nat) : Option ρ :=
  (y.results.find? (·.1 == ticket)).map (·.2)

/-- Takes the first member of a list for which a function has a value. -/
def pick {α γ : Type} (f : α → Option γ) : List α → Option (γ × List α)
  | [] => none
  | a :: rest =>
    match f a with
    | some c => some (c, rest)
    | none => (pick f rest).map fun (c, rest) => (c, a :: rest)

/-- Gives the task that waits for a call its outcome. -/
def resolve (y : Network σ HH WH β ρ) (channel : Nat) (id : CallId) (outcome : CallOutcome) :
    Network σ HH WH β ρ :=
  match pick (fun t : Serving σ =>
      match t.waiting with
      | .call c i resume => if c = channel ∧ i = id then some (t, resume) else none
      | _ => none) y.serving with
  | some ((t, resume), rest) =>
    continueServing { y with serving := rest } t.channel t.id (resume outcome y.state)
  | none =>
    match pick (fun t : Running σ ρ =>
        match t.waiting with
        | .call c i resume => if c = channel ∧ i = id then some (t, resume) else none
        | _ => none) y.running with
    | some ((t, resume), rest) =>
      continueRunning { y with running := rest } t.ticket (resume outcome y.state)
    | none => y

/-- Fails the calls that a closing end gives back. -/
def reject (y : Network σ HH WH β ρ) (channel : Nat) (ids : List CallId) : Network σ HH WH β ρ :=
  ids.foldl (fun y id => y.resolve channel id (.error .closed)) y

/-- Closes the host end of a channel. -/
def closeHost (y : Network σ HH WH β ρ) (i : Nat) : Network σ HH WH β ρ :=
  match y.channels[i]? with
  | some c =>
    let (ids, host, link) := c.host.close c.link
    (y.setChannel i { c with host := host, link := link }).reject i ids
  | none => y

/-- Serves a call of the worker. -/
def serve (ps : Programs σ HH WH) (y : Network σ HH WH β ρ) (i : Nat) (c : Channel σ HH WH β)
    (id : CallId) (target : Target) (args : Wire) : Network σ HH WH β ρ :=
  match Inbound.of "host" (HasHeap.heap y.state) (c.host.handlerFor target) target args with
  | .refused e => y.setChannel i { c with link := HostEndpoint.post c.link (.fail id e) }
  | .run handler args h =>
    let s := HasHeap.setHeap h y.state
    { y with state := s }.continueServing i id (ps.host i handler args s)

/-- The host takes a message of a channel, or its end. -/
def dispatch? (ps : Programs σ HH WH) (y : Network σ HH WH β ρ) (i : Nat) :
    Option (Network σ HH WH β ρ) := do
  let c ← y.channels[i]?
  guard c.host.dispatching
  match c.link.toHost.receive with
  | .waiting => none
  | .ended =>
    let (ids, host, link) := c.host.finish c.link
    some ((y.setChannel i { c with host := host, link := link }).reject i ids)
  | .message m q =>
    let (event, host, h) := c.host.dispatch (HasHeap.heap y.state) m
    let c := { c with host := host, link := { c.link with toHost := q } }
    let y := { y.setChannel i c with state := HasHeap.setHeap h y.state }
    some (match event with
      | .resolved id outcome => y.resolve i id outcome
      | .inbound id target args => y.serve ps i c id target args
      | .unknown => y)

/-- The thread of a channel moves. -/
def advance? (ps : Programs σ HH WH) (y : Network σ HH WH β ρ) (i : Nat) :
    Option (Network σ HH WH β ρ) := do
  let c ← y.channels[i]?
  let thread ← c.thread
  let w ← WorkerSide.move? (ps.worker i) ⟨thread, c.link, y.state⟩
  some { y.setChannel i { c with thread := some w.thread, link := w.link } with state := w.state }

/-- A task goes on whose read has ended. -/
def wake? (ps : Programs σ HH WH) (y : Network σ HH WH β ρ) : Option (Network σ HH WH β ρ) :=
  match pick (fun t : Serving σ =>
      match t.waiting with
      | .line session read resume =>
        (ps.lineOf y.state session read).map fun line => (t, resume line)
      | _ => none) y.serving with
  | some ((t, resume), rest) =>
    some (continueServing { y with serving := rest } t.channel t.id (resume y.state))
  | none =>
    match pick (fun t : Running σ ρ =>
        match t.waiting with
        | .line session read resume =>
          (ps.lineOf y.state session read).map fun line => (t, resume line)
        | _ => none) y.running with
    | some ((t, resume), rest) =>
      some (continueRunning { y with running := rest } t.ticket (resume y.state))
    | none => none

/-- The step that the network makes next, if any is possible. -/
def step? (ps : Programs σ HH WH) (y : Network σ HH WH β ρ) : Option (Network σ HH WH β ρ) :=
  let channels := List.range y.channels.size
  y.wake? ps <|> channels.findSome? (y.dispatch? ps) <|> channels.findSome? (y.advance? ps)

/-- Makes steps until none is possible, at most so many. -/
def settle (ps : Programs σ HH WH) : Nat → Network σ HH WH β ρ → Network σ HH WH β ρ
  | 0, y => y
  | fuel + 1, y =>
    match y.step? ps with
    | some y => settle ps fuel y
    | none => y

/-- A bound on the steps of one settling that no terminating exchange reaches in practice. -/
def stepLimit : Nat := 1000000

end Network
end WorkerHost
