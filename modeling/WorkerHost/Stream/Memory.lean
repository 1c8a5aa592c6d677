import WorkerHost.Shell.Run
import WorkerHost.Stream.Sink
import WorkerHost.Task
import WorkerHost.Value.Display
/-!
Streams in memory: sinks that keep what is written, and input that is a list of lines.
-/

namespace WorkerHost

/-- A sink in memory. -/
inductive MemorySink where
  /-- keeps nothing -/
  | discard
  /-- keeps all bytes -/
  | buffer (bytes : List UInt8)
  /-- takes so many more writes, then fails -/
  | limited (left : Nat) (bytes : List UInt8)

namespace MemorySink

/-- What has been written, as text. -/
def contents : MemorySink → String
  | discard => ""
  | buffer bytes | limited _ bytes => lossyText bytes

/-- One write of some bytes. -/
def push (s : MemorySink) (data : List UInt8) : Except StreamError Unit × MemorySink :=
  match s with
  | discard => (.ok (), discard)
  | buffer bytes => (.ok (), buffer (bytes ++ data))
  | limited 0 bytes => (.error (.other "sink full"), limited 0 bytes)
  | limited (left + 1) bytes => (.ok (), limited left (bytes ++ data))

/-- Flushing fails once no more writes are taken. -/
def flush : MemorySink → Except StreamError Unit
  | limited 0 _ => .error (.other "flush failed")
  | _ => .ok ()

end MemorySink

/-- The streams of an interpreter in memory. -/
structure MemoryStreams where
  out : MemorySink
  /-- the sink for errors; without one they go where output goes -/
  err : Option MemorySink
  input : List String

namespace MemoryStreams

def pushOut (s : MemoryStreams) (data : List UInt8) : Except StreamError Unit × MemoryStreams :=
  let (r, out) := s.out.push data
  (r, { s with out := out })

def pushErr (s : MemoryStreams) (data : List UInt8) : Except StreamError Unit × MemoryStreams :=
  match s.err with
  | some err =>
    let (r, err) := err.push data
    (r, { s with err := some err })
  | none => s.pushOut data

/-- The next line of input. -/
def nextLine (s : MemoryStreams) : Option String × MemoryStreams :=
  (s.input.head?, { s with input := s.input.tail })

end MemoryStreams

/-- States that hold streams in memory. -/
class HasStreams (σ : Type) where
  streams : σ → MemoryStreams
  setStreams : MemoryStreams → σ → σ

/-- Streams in memory, and functions that need no host. -/
def memoryConsole {σ : Type} [HasHeap σ] [HasStreams σ] : Console (StateM σ) where
  write data := on fun s => s.pushOut (Text.Utf8.ofString data)
  writeByte b := on fun s => s.pushOut [b]
  flush := on fun s => (s.out.flush, s)
  writeError data := on fun s => s.pushErr (Text.Utf8.ofString data)
  flushError := on fun s => ((s.err.getD s.out).flush, s)
  readLine _ := on fun s => let (line, s) := s.nextLine; (.ok line, s)
  call f args := onHeap fun h => f.call h args
  display v := readHeap (·.display v)
where
  /-- a change of the streams -/
  on {α : Type} (f : MemoryStreams → α × MemoryStreams) : StateM σ α := fun st =>
    let (a, s) := f (HasStreams.streams st)
    (a, HasStreams.setStreams s st)

/-- A shell on its own, with streams in memory. -/
structure LocalShell where
  heap : Heap
  streams : MemoryStreams
  shell : Shell

namespace LocalShell

instance : HasHeap LocalShell := ⟨(·.heap), fun h s => { s with heap := h }⟩
instance : HasStreams LocalShell := ⟨(·.streams), fun s l => { l with streams := s }⟩

/-- Runs a script. -/
def run (code : String) : StateM LocalShell (Except InterpreterError Value) := do
  let (r, shell) ← (← get).shell.run memoryConsole code
  modify fun l => { l with shell := shell }
  return r

end LocalShell
end WorkerHost
