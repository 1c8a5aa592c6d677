import WorkerHost.Channel.Link
import WorkerHost.Channel.RefTable
/-!
The host end of a channel. A call leaves an entry among the pending ones, and the first reply that
bears its number resolves it, in whatever order replies arrive. Inbound calls are served by tasks of
their own, so a handler that waits holds nothing up.
-/

namespace WorkerHost

/-- The state of the host end. -/
structure HostEndpoint (H : Type) where
  name : String
  nextId : UInt64
  closed : Bool
  /-- whether the end of the worker's messages has not been seen yet -/
  dispatching : Bool
  /-- the calls without a reply so far, the oldest first -/
  pending : List CallId
  handlers : Handlers H
  refs : RefTable H

/-- What a message leads to. -/
inductive HostEvent where
  /-- a call of the host has its outcome -/
  | resolved (id : CallId) (outcome : CallOutcome)
  /-- a call of the worker is to be served -/
  | inbound (id : CallId) (target : Target) (args : Wire)
  /-- a reply that no call waits for -/
  | unknown

namespace HostEndpoint
variable {H : Type}

def new (name : String) : HostEndpoint H :=
  ⟨name, 1, false, true, [], .empty, .empty⟩

/-- Adds a handler for a method that has none. -/
def register (e : HostEndpoint H) (method : String) (handler : H) :
    Except ChannelError (HostEndpoint H) := do
  return { e with handlers := ← e.handlers.register method handler }

/-- Removes the handler of a method, and says whether there was one. -/
def unregister (e : HostEndpoint H) (method : String) : Bool × HostEndpoint H :=
  let (had, hs) := e.handlers.unregister method
  (had, { e with handlers := hs })

/-- Gives a callable a handle by which the other side can call it. -/
def expose (e : HostEndpoint H) (callable : H) : HandleId × HostEndpoint H :=
  let (id, refs) := e.refs.insert callable
  (id, { e with refs := refs })

/-- Takes a handle back, and says whether it was live. -/
def release (e : HostEndpoint H) (id : HandleId) : Bool × HostEndpoint H :=
  ((e.refs.get? id).isSome, { e with refs := e.refs.erase id })

/-- Sends a call. Arguments without a wire form leave everything as it was; a missing link uses up
a number. -/
def startCall (e : HostEndpoint H) (link : Link) (h : Heap) (target : Target) (args : List Value) :
    Except ChannelError CallId × HostEndpoint H × Link :=
  match packArgs h args with
  | .error err => (.error (.codec err), e, link)
  | .ok args =>
    let id : CallId := ⟨e.nextId⟩
    let e := { e with nextId := e.nextId + 1 }
    match link.toWorker.send? (.call id target args) with
    | none => (.error .closed, e, link)
    | some q => (.ok id, { e with pending := e.pending ++ [id] }, { link with toWorker := q })

/-- Takes a message off the worker's queue. -/
def dispatch (e : HostEndpoint H) (h : Heap) (m : Message) : HostEvent × HostEndpoint H × Heap :=
  match m with
  | .call id target args => (.inbound id target args, e, h)
  | m =>
    match m.outcome? h with
    | some (outcome, h) =>
      if e.pending.contains m.id then
        (.resolved m.id outcome, { e with pending := e.pending.filter (· != m.id) }, h)
      else (.unknown, e, h)
    | none => (.unknown, e, h)

/-- Closes the end. The calls that were pending are given back, to fail as closed; the link loses
its sender, which the worker notices. Closing again changes nothing. -/
def close (e : HostEndpoint H) (link : Link) : List CallId × HostEndpoint H × Link :=
  if e.closed then ([], e, link)
  else
    (e.pending, { e with closed := true, pending := [] },
      { link with toWorker := link.toWorker.dropSender })

/-- The worker's messages have come to an end: no more are waited for, and the end closes. -/
def finish (e : HostEndpoint H) (link : Link) : List CallId × HostEndpoint H × Link :=
  let (rejected, e, link) := e.close link
  (rejected, { e with dispatching := false },
    { link with toHost := link.toHost.dropReceiver })

/-- The handler that a target names. -/
def handlerFor (e : HostEndpoint H) : Target → Option H
  | .method name => e.handlers.get? name
  | .handle h => e.refs.get? h

/-- Sends the answer to an inbound call; one that can not be sent is lost. -/
def post (link : Link) (m : Message) : Link :=
  match link.toWorker.send? m with
  | some q => { link with toWorker := q }
  | none => link

end HostEndpoint
end WorkerHost
