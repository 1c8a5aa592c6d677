import WorkerHost.Channel.Link
import WorkerHost.Channel.RefTable
import WorkerHost.Task
/-!
The worker end of a channel. A worker is one thread, so a call blocks it: until the reply arrives it
takes the messages of its queue itself and serves the calls among them, and a handler that calls in
turn waits in the same way. The calls under way form a stack. A reply for a call further down the
stack is put aside until that call is on top again.
-/

namespace WorkerHost

/-- What worker code asks its surroundings: a call of the host. -/
structure HostCall where
  target : Target
  args : List Value

/-- A computation of a worker. It stops at each call of the host and goes on with the outcome. -/
abbrev WorkerTask (σ α : Type) := Task σ HostCall (fun _ => CallOutcome) α

/-- How far a computation of a worker has come. -/
abbrev WorkerStep (σ α : Type) := Step σ HostCall (fun _ => CallOutcome) α

/-- The state of the worker end. -/
structure WorkerEndpoint (H : Type) where
  name : String
  nextId : UInt64
  closed : Bool
  /-- how many calls are waiting -/
  depth : Nat
  handlers : Handlers H
  refs : RefTable Function
  /-- the calls that are waiting for a reply -/
  outstanding : List CallId
  /-- replies to calls further down the stack -/
  stash : List (CallId × CallOutcome)

namespace WorkerEndpoint
variable {H : Type}

def new (name : String) : WorkerEndpoint H :=
  ⟨name, 1, false, 0, .empty, .empty, [], []⟩

/-- Adds a handler for a method that has none. -/
def register (e : WorkerEndpoint H) (method : String) (handler : H) :
    Except ChannelError (WorkerEndpoint H) := do
  return { e with handlers := ← e.handlers.register method handler }

/-- Removes the handler of a method, and says whether there was one. -/
def unregister (e : WorkerEndpoint H) (method : String) : Bool × WorkerEndpoint H :=
  let (had, hs) := e.handlers.unregister method
  (had, { e with handlers := hs })

/-- Gives a callable a handle by which the other side can call it. -/
def expose (e : WorkerEndpoint H) (callable : Function) : HandleId × WorkerEndpoint H :=
  let (id, refs) := e.refs.insert callable
  (id, { e with refs := refs })

/-- Takes a handle back, and says whether it was live. -/
def release (e : WorkerEndpoint H) (id : HandleId) : Bool × WorkerEndpoint H :=
  ((e.refs.get? id).isSome, { e with refs := e.refs.erase id })

/-- What a target names: a handler or an exposed function. -/
def handlerFor (e : WorkerEndpoint H) : Target → Option (H ⊕ Function)
  | .method name => (e.handlers.get? name).map .inl
  | .handle h => (e.refs.get? h).map .inr

/-- Puts a reply aside, in place of one put aside before for the same call. -/
def putAside (e : WorkerEndpoint H) (id : CallId) (outcome : CallOutcome) : WorkerEndpoint H :=
  { e with stash := (id, outcome) :: e.stash.filter (·.1 != id) }

/-- The reply put aside for a call. -/
def aside? (e : WorkerEndpoint H) (id : CallId) : Option CallOutcome :=
  (e.stash.find? (·.1 == id)).map (·.2)

/-- The call is over. -/
def settle (e : WorkerEndpoint H) (id : CallId) : WorkerEndpoint H :=
  { e with
    depth := e.depth - 1
    outstanding := e.outstanding.filter (· != id)
    stash := e.stash.filter (·.1 != id) }

end WorkerEndpoint

/-- What each handler and each exposed function of a worker does. -/
structure WorkerPrograms (σ H : Type) where
  handler : H → List Value → WorkerTask σ (Except RemoteError Value)
  function : Function → List Value → WorkerTask σ (Except String Value)

/-- The computation of a handler or of an exposed function. -/
def WorkerPrograms.callable {σ H : Type} (ps : WorkerPrograms σ H) :
    H ⊕ Function → List Value → WorkerTask σ (Except RemoteError Value)
  | .inl handler, args => ps.handler handler args
  | .inr f, args => do
    match ← ps.function f args with
    | .ok v => return .ok v
    | .error text => return .error ⟨"Error", text⟩

/-- A computation that waits: the call it has sent, and how it goes on. -/
structure Blocked (σ α : Type) where
  id : CallId
  call : HostCall
  resume : CallOutcome → σ → WorkerStep σ α

/-- A handler that waits for a call of its own, and the inbound call that it is serving. -/
structure Frame (σ : Type) where
  waiting : CallId
  answering : CallId
  resume : CallOutcome → σ → WorkerStep σ (Except RemoteError Value)

/-- What is at the bottom of the stack. -/
inductive Base (σ β : Type) where
  /-- nothing: the thread does not look at its queue -/
  | idle
  /-- a computation of the thread's own that waits for a call -/
  | waiting (id : CallId) (resume : CallOutcome → σ → WorkerStep σ β)
  /-- the computation's result -/
  | finished (b : β)
  /-- the loop that serves inbound calls -/
  | serving
  /-- the loop after the host's end is gone -/
  | ended

/-- A worker thread: its end of the channel and its stack, the top first. -/
structure WorkerThread (σ H β : Type) where
  endpoint : WorkerEndpoint H
  frames : List (Frame σ)
  base : Base σ β

/-- A worker thread, the link it is at and the state it works on. -/
structure WorkerSide (σ H β : Type) where
  thread : WorkerThread σ H β
  link : Link
  state : σ

namespace WorkerSide
variable {σ H β : Type} [HasHeap σ]

def endpoint (w : WorkerSide σ H β) : WorkerEndpoint H :=
  w.thread.endpoint

def setEndpoint (w : WorkerSide σ H β) (e : WorkerEndpoint H) : WorkerSide σ H β :=
  { w with thread := { w.thread with endpoint := e } }

/-- Sends a message; one that can not be sent is lost. -/
def post (w : WorkerSide σ H β) (m : Message) : WorkerSide σ H β :=
  match w.link.toHost.send? m with
  | some q => { w with link := { w.link with toHost := q } }
  | none => w

/-- Sends a call. Nothing is left of one that can not be sent, except that its number is used up if
only the link was missing. -/
def startCall (w : WorkerSide σ H β) (c : HostCall) :
    Except ChannelError CallId × WorkerSide σ H β :=
  let e := w.endpoint
  if e.closed then (.error .closed, w)
  else
    match packArgs (HasHeap.heap w.state) c.args with
    | .error err => (.error (.codec err), w)
    | .ok args =>
      let id : CallId := ⟨e.nextId⟩
      let e := { e with nextId := e.nextId + 1 }
      match w.link.toHost.send? (.call id c.target args) with
      | none => (.error .closed, w.setEndpoint e)
      | some q =>
        let e := { e with depth := e.depth + 1, outstanding := id :: e.outstanding }
        (.ok id, { w.setEndpoint e with link := { w.link with toHost := q } })

/-- Runs a computation until it waits or ends. A call that can not be sent fails at once. -/
def runStep {α : Type} (w : WorkerSide σ H β) :
    WorkerStep σ α → (α ⊕ Blocked σ α) × WorkerSide σ H β
  | .done a s => (.inl a, { w with state := s })
  | .ask c s resume =>
    match startCall { w with state := s } c with
    | (.ok id, w) => (.inr ⟨id, c, resume⟩, w)
    | (.error e, w) => runStep w (resume (.error e) w.state)

/-- Runs a handler's computation until it waits or ends; then its outcome is sent. -/
def runHandler (answering : CallId) (w : WorkerSide σ H β)
    (step : WorkerStep σ (Except RemoteError Value)) : WorkerSide σ H β :=
  match runStep w step with
  | (.inl outcome, w) => w.post (answerTo (HasHeap.heap w.state) answering outcome)
  | (.inr b, w) =>
    { w with thread := { w.thread with frames := ⟨b.id, answering, b.resume⟩ :: w.thread.frames } }

/-- Runs the thread's own computation until it waits or ends. -/
def runBase (w : WorkerSide σ H β) (step : WorkerStep σ β) : WorkerSide σ H β :=
  match runStep w step with
  | (.inl b, w) => { w with thread := { w.thread with base := .finished b } }
  | (.inr b, w) => { w with thread := { w.thread with base := .waiting b.id b.resume } }

/-- Serves an inbound call. -/
def serveCall (ps : WorkerPrograms σ H) (w : WorkerSide σ H β) (id : CallId) (target : Target)
    (args : Wire) : WorkerSide σ H β :=
  match Inbound.of "worker" (HasHeap.heap w.state) (w.endpoint.handlerFor target) target args with
  | .refused e => w.post (.fail id e)
  | .run callable args h => runHandler id w (ps.callable callable args (HasHeap.setHeap h w.state))

/-- The thread after the call on top of the stack is over. -/
def popTop (w : WorkerSide σ H β) : WorkerSide σ H β :=
  match w.thread.frames with
  | f :: rest =>
    { w with thread := { w.thread with frames := rest, endpoint := w.endpoint.settle f.waiting } }
  | [] =>
    match w.thread.base with
    | .waiting id _ =>
      { w with thread := { w.thread with base := .idle, endpoint := w.endpoint.settle id } }
    | _ => w

/-- Goes on with the call on top of the stack. -/
def resumeTop (w : WorkerSide σ H β) (outcome : CallOutcome) : WorkerSide σ H β :=
  match w.thread.frames with
  | f :: _ => runHandler f.answering w.popTop (f.resume outcome w.state)
  | [] =>
    match w.thread.base with
    | .waiting _ resume => runBase w.popTop (resume outcome w.state)
    | _ => w

/-- The call on top of the stack. -/
def top? (w : WorkerSide σ H β) : Option CallId :=
  match w.thread.frames with
  | f :: _ => some f.waiting
  | [] =>
    match w.thread.base with
    | .waiting id _ => some id
    | _ => none

/-- Takes a reply: the call on top goes on with it. One for a call further down is put aside, and
one that no call waits for is lost. -/
def takeReply (w : WorkerSide σ H β) (m : Message) : WorkerSide σ H β :=
  match m.outcome? (HasHeap.heap w.state) with
  | some (outcome, h) =>
    if w.top? = some m.id then resumeTop { w with state := HasHeap.setHeap h w.state } outcome
    else if w.endpoint.outstanding.contains m.id then
      { w.setEndpoint (w.endpoint.putAside m.id outcome) with state := HasHeap.setHeap h w.state }
    else w
  | none => w

/-- Takes a message. -/
def take (ps : WorkerPrograms σ H) (w : WorkerSide σ H β) (m : Message) : WorkerSide σ H β :=
  match m with
  | .call id target args => serveCall ps w id target args
  | m => takeReply w m

/-- The host's end is gone and all its messages are taken: the call on top fails, and the serving
loop ends. -/
def disconnect (w : WorkerSide σ H β) : WorkerSide σ H β :=
  let w := w.setEndpoint { w.endpoint with closed := true }
  match w.top? with
  | some _ => resumeTop w (.error .closed)
  | none => { w with thread := { w.thread with base := .ended } }

/-- Whether the thread looks at its queue at all. -/
def isListening (w : WorkerSide σ H β) : Bool :=
  match w.thread.frames, w.thread.base with
  | _ :: _, _ | _, .waiting .. | _, .serving => true
  | _, _ => false

/-- One move of the thread: a reply put aside for the call on top, or the next message, or the end
of the queue; `none` if it has to wait. -/
def move? (ps : WorkerPrograms σ H) (w : WorkerSide σ H β) : Option (WorkerSide σ H β) :=
  if w.isListening then
    match w.top?.bind w.endpoint.aside? with
    | some outcome => some (resumeTop w outcome)
    | none =>
      match w.link.toWorker.receive with
      | .message m q => some (take ps { w with link := { w.link with toWorker := q } } m)
      | .ended => some (disconnect w)
      | .waiting => none
  else none

/-- Moves until it has to wait, at most so many times. -/
def advance (ps : WorkerPrograms σ H) : Nat → WorkerSide σ H β → WorkerSide σ H β
  | 0, w => w
  | fuel + 1, w =>
    match move? ps w with
    | some w => advance ps fuel w
    | none => w

/-- Starts a computation of the thread's own. -/
def start (w : WorkerSide σ H β) (task : WorkerTask σ β) : WorkerSide σ H β :=
  runBase w (task w.state)

/-- Stops sending. The flag alone does not stop the serving loop, which the host's end ends. -/
def close (w : WorkerSide σ H β) : WorkerSide σ H β :=
  if w.endpoint.closed then w
  else
    let w := w.setEndpoint { w.endpoint with closed := true }
    { w with link := { w.link with toHost := w.link.toHost.dropSender } }

end WorkerSide
end WorkerHost
