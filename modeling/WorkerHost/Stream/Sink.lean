import WorkerHost.Shell.Basic
import WorkerHost.Text.Utf8
/-!
Sinks for output that arrives as whole texts or byte by byte. A sink for a display passes bytes on
as soon as they form whole characters; a sink over a channel collects them up to the next newline.
-/

namespace WorkerHost

open Text

/-- What some bytes are as a text: all of them, all but a character that is unfinished at the end,
or no text at all. -/
inductive Reading where
  | whole (text : String)
  | unfinished (text : String) (rest : List UInt8)
  | malformed

/-- Reads characters until the bytes end or go wrong. -/
def Reading.loop : Nat → List UInt8 → List Char → Reading
  | 0, _, acc => .whole (String.ofList acc.reverse)
  | fuel + 1, bytes, acc =>
    match Utf8.next bytes with
    | .nothing => .whole (String.ofList acc.reverse)
    | .char c rest => loop fuel rest (c :: acc)
    | .incomplete => .unfinished (String.ofList acc.reverse) bytes
    | .malformed _ => .malformed

/-- What some bytes are as a text. -/
def Reading.of (bytes : List UInt8) : Reading :=
  loop (bytes.length + 1) bytes []

/-- The text of some bytes, with replacement characters where they are malformed. -/
def lossyText (bytes : List UInt8) : String :=
  String.ofList (Utf8.decodeLossy bytes)

/-- A sink that writes to a display. -/
structure SurfaceSink where
  /-- the beginning of a character -/
  pending : List UInt8

namespace SurfaceSink

def new : SurfaceSink := ⟨[]⟩

/-- Writes out what is pending: the texts written, and the sink after it. -/
def flush (s : SurfaceSink) : List String × SurfaceSink :=
  if s.pending.isEmpty then ([], s) else ([lossyText s.pending], new)

/-- Writes a text after what is pending. -/
def write (s : SurfaceSink) (data : String) : List String × SurfaceSink :=
  let (texts, s) := s.flush
  (texts ++ [data], s)

/-- Takes a byte; characters are written as they become whole. -/
def writeByte (s : SurfaceSink) (b : UInt8) : List String × SurfaceSink :=
  let s : SurfaceSink := ⟨s.pending ++ [b]⟩
  match Reading.of s.pending with
  | .whole text => ([text], new)
  | .unfinished .. => ([], s)
  | .malformed => s.flush

/-- Takes bytes one by one. -/
def writeBytes (s : SurfaceSink) : List UInt8 → List String × SurfaceSink
  | [] => ([], s)
  | b :: rest =>
    let (texts, s) := s.writeByte b
    let (more, s) := s.writeBytes rest
    (texts ++ more, s)

end SurfaceSink

/-- A sink that sends its output over a channel. -/
structure ChannelSink where
  buffer : List UInt8

namespace ChannelSink

def new : ChannelSink := ⟨[]⟩

/-- The text to send of what is buffered, and the sink that keeps the rest. A character that is
unfinished at the end is held back. -/
def takeText (s : ChannelSink) : String × ChannelSink :=
  match Reading.of s.buffer with
  | .whole text => (text, new)
  | .unfinished text rest => (text, ⟨rest⟩)
  | .malformed => (lossyText s.buffer, new)

variable {m : Type → Type} [Monad m]

/-- Sends a text, unless it is empty. -/
def sendText (send : String → m (Except ChannelError Unit)) (text : String) :
    m (Except StreamError Unit) := do
  if text.isEmpty then return .ok ()
  else return (← send text).mapError StreamError.ofChannel

/-- Sends what is buffered. It is gone from the buffer even if it can not be sent. `store` keeps the
sink while the channel is busy. -/
def drain (send : String → m (Except ChannelError Unit)) (store : ChannelSink → m Unit)
    (s : ChannelSink) : m (Except StreamError Unit) := do
  if s.buffer.isEmpty then return .ok ()
  else
    let (text, s) := s.takeText
    store s
    sendText send text

/-- Sends a text after what is buffered. -/
def write (send : String → m (Except ChannelError Unit)) (store : ChannelSink → m Unit)
    (s : ChannelSink) (data : String) : m (Except StreamError Unit) := do
  match ← s.drain send store with
  | .error e => return .error e
  | .ok () => sendText send data

/-- Takes a byte; a newline sends the line. -/
def writeByte (send : String → m (Except ChannelError Unit)) (store : ChannelSink → m Unit)
    (s : ChannelSink) (b : UInt8) : m (Except StreamError Unit) := do
  let s : ChannelSink := ⟨s.buffer ++ [b]⟩
  store s
  if b == 10 then s.drain send store else return .ok ()

end ChannelSink
end WorkerHost
