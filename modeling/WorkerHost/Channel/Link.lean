import WorkerHost.Channel.Message
/-!
The link between the two ends of a channel: two queues, each of which keeps the order of sending.
-/

namespace WorkerHost

/-- What can go wrong with a call. -/
inductive ChannelError where
  /-- the other side is gone -/
  | closed
  /-- the other side's handler failed -/
  | remote (e : RemoteError)
  | codec (e : CodecError)
  | handlerExists (method : String)
  | unexpectedReply (method expected got : String)
  deriving DecidableEq

namespace ChannelError

def name : ChannelError → String
  | closed => "Closed"
  | remote _ => "Remote"
  | codec _ => "Codec"
  | handlerExists _ => "HandlerExists"
  | unexpectedReply .. => "UnexpectedReply"

def message : ChannelError → String
  | closed => "Channel closed"
  | remote e => "Remote error: " ++ e.text
  | codec e => "Codec error: " ++ e.message
  | handlerExists method => "Handler already registered: " ++ method
  | unexpectedReply method expected got =>
    "Unexpected reply from " ++ method ++ ": expected " ++ expected ++ ", got " ++ got

end ChannelError

/-- The result of a call. -/
abbrev CallOutcome := Except ChannelError Value

/-- One direction of a link. -/
structure Queue where
  /-- the messages under way, the oldest first -/
  messages : List Message
  /-- whether the sender still exists -/
  sending : Bool
  /-- whether the receiver still exists -/
  receiving : Bool

namespace Queue

def new : Queue := ⟨[], true, true⟩

/-- The queue with one more message, unless one of its ends is gone. -/
def send? (q : Queue) (m : Message) : Option Queue :=
  if q.sending && q.receiving then some { q with messages := q.messages ++ [m] } else none

/-- The sender goes away; what is under way still arrives. -/
def dropSender (q : Queue) : Queue :=
  { q with sending := false }

/-- The receiver goes away, and with it what is under way. -/
def dropReceiver (q : Queue) : Queue :=
  { q with receiving := false, messages := [] }

/-- What a receiver finds. -/
inductive Received where
  | message (m : Message) (rest : Queue)
  /-- nothing yet -/
  | waiting
  /-- nothing, now and forever -/
  | ended

/-- Looks for the next message. -/
def receive (q : Queue) : Received :=
  match q.messages with
  | m :: rest => .message m { q with messages := rest }
  | [] => if q.sending then .waiting else .ended

end Queue

/-- The two directions. -/
structure Link where
  toWorker : Queue
  toHost : Queue

namespace Link

def new : Link := ⟨.new, .new⟩

/-- The host's end goes away. -/
def dropHost (l : Link) : Link :=
  ⟨l.toWorker.dropSender, l.toHost.dropReceiver⟩

/-- The worker's end goes away. -/
def dropWorker (l : Link) : Link :=
  ⟨l.toWorker.dropReceiver, l.toHost.dropSender⟩

end Link

/-- The answer to an inbound call, with the handler's value encoded; a value that has no wire form
is a failure too. -/
def answerTo (h : Heap) (id : CallId) (outcome : Except RemoteError Value) : Message :=
  match outcome with
  | .error e => .fail id e
  | .ok v =>
    match Wire.encode h v with
    | .ok w => .reply id w
    | .error e => .fail id ⟨"TypeError", e.message⟩

/-- What serving an inbound call comes to: the failure that answers it at once, or something to
run on arguments, which live in a heap. -/
inductive Inbound (K : Type) where
  | refused (e : RemoteError)
  | run (callable : K) (args : List Value) (heap : Heap)

/-- Serves an inbound call with what its target names on this side. If that is nothing, or if the
arguments can not be read, nothing runs. -/
def Inbound.of {K : Type} (side : String) (h : Heap) (found : Option K) (target : Target)
    (args : Wire) : Inbound K :=
  match found with
  | none => .refused ⟨"NoHandler", "no " ++ side ++ " handler for " ++ target.text⟩
  | some callable =>
    match unpackArgs h args with
    | .error e => .refused ⟨"TypeError", e.message⟩
    | .ok (args, h) => .run callable args h

/-- The outcome that a message carries, with the heap it leaves; a call carries none. -/
def Message.outcome? (h : Heap) : Message → Option (CallOutcome × Heap)
  | .reply _ w =>
    match Wire.decode h w with
    | .ok (v, h) => some (.ok v, h)
    | .error e => some (.error (.codec e), h)
  | .fail _ e => some (.error (.remote e), h)
  | .call .. => none

/-- Handlers by the names of their methods, each name once. -/
structure Handlers (H : Type) where
  entries : List (String × H)

namespace Handlers
variable {H : Type}

def empty : Handlers H := ⟨[]⟩

def get? (hs : Handlers H) (method : String) : Option H :=
  (hs.entries.find? (·.1 == method)).map (·.2)

def contains (hs : Handlers H) (method : String) : Bool :=
  (hs.get? method).isSome

/-- Adds a handler for a method that has none. -/
def register (hs : Handlers H) (method : String) (handler : H) :
    Except ChannelError (Handlers H) :=
  if hs.contains method then .error (.handlerExists method)
  else .ok ⟨hs.entries ++ [(method, handler)]⟩

/-- Removes the handler of a method, and says whether there was one. -/
def unregister (hs : Handlers H) (method : String) : Bool × Handlers H :=
  (hs.contains method, ⟨hs.entries.filter (·.1 != method)⟩)

end Handlers
end WorkerHost
