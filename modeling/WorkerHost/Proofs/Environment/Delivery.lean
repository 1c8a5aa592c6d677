import WorkerHost.Environment.Local
import WorkerHost.Environment.Worker
import WorkerHost.Proofs.Environment.Interpreter
import WorkerHost.Proofs.Shell.Conversation
import WorkerHost.Proofs.Stream.Sinks

/-!
# What becomes of output

What a script writes is seen in the questions that it asks of its console, whatever console that is.
A console does with them what it can:

* a local one shows all that is written, in order and at once: `LocalInterpreter.execute_shows`;
* that of a worker sends it to the host stream by stream and in order, but a sink over a channel
  holds back what was put after the last newline: `WorkerContext.execute_delivers`. A run that ends
  with a value has flushed its sinks. One that fails has not, and leaves those bytes behind.
-/

namespace WorkerHost

open Text Utf8

/-- A call of the host by a worker, and its outcome. -/
abbrev HostExchange := (_ : HostCall) × CallOutcome

namespace HostExchange

/-- The bytes that a call writes to a stream of the host. -/
def bytes (stream : Stream) (e : HostExchange) : List UInt8 :=
  match e.1 with
  | ⟨.method method, [.str name, .str data]⟩ =>
    if method = Method.write ∧ name = stream.text then ofString data else []
  | _ => []

/-- If the call is one of `write`, it succeeds. -/
def WriteSucceeds (e : HostExchange) : Prop :=
  e.1.target = .method Method.write → ∃ v, e.2 = .ok v

end HostExchange

namespace WorkerContext
variable {channel : ℕ} {stream : Stream} {s s' : EnvironmentState} {w : WorkerContext}
  {log : List HostExchange} {r : Except StreamError Unit} {cs : List Char}

/-- Others leave a worker as it is while it waits. -/
def Undisturbed (channel : ℕ) (s s' : EnvironmentState) : Prop :=
  s'.workers[channel]? = s.workers[channel]?

lemma worker_eq (hw : s.workers[channel]? = some w) : s.worker channel = w := by
  simp [EnvironmentState.worker, Array.getD_eq_getD_getElem?, hw]

lemma workers_update (hw : s.workers[channel]? = some w) (f : WorkerContext → WorkerContext) :
    (s.updateWorker channel f).workers[channel]? = some (f w) := by
  simp [EnvironmentState.updateWorker, Array.getElem?_modify, hw]

lemma sink_setSink (w : WorkerContext) (k : ChannelSink) (t : Stream) :
    (w.setSink k stream).sink t = if t = stream then k else w.sink t := by
  cases stream <;> cases t <;> rfl

lemma setSink_self {k : ChannelSink} (h : w.sink stream = k) : w.setSink k stream = w := by
  subst h
  cases stream <;> rfl

/-! ## Sinks over a channel -/

/-- A stream's sink has done its work: it sent some bytes, and this is the worker after it. -/
structure Sent (channel : ℕ) (stream : Stream) (data : List UInt8) (w : WorkerContext)
    (log : List HostExchange) (r : Except StreamError Unit) (s : EnvironmentState) : Prop where
  ok : r = .ok ()
  worker : s.workers[channel]? = some w
  bytes : ∀ t, log.flatMap (HostExchange.bytes t) = if t = stream then data else []

lemma text_inj {stream t : Stream} : stream.text = t.text ↔ t = stream := by
  cases stream <;> cases t <;> decide

section
variable (hok : ∀ e ∈ log, HostExchange.WriteSucceeds e)
include hok

/-- A text is sent by a call, unless it is empty. -/
lemma sent_of_sendText {text : String} (hw : s.workers[channel]? = some w)
    (h : (ChannelSink.sendText (workerApi.write stream) text s).Course (Undisturbed channel) log r
      s') : Sent channel stream (ofString text) w log r s' := by
  unfold ChannelSink.sendText at h
  split at h
  · rename_i hempty
    obtain ⟨rfl, rfl, rfl⟩ := Step.course_done.1 h
    have htext : ofString text = [] := by
      rw [String.isEmpty_iff.1 hempty]
      rfl
    exact ⟨rfl, hw, fun t => by simp [htext]⟩
  · have hstep : Step.Course (Undisturbed channel) (.ask ⟨.method Method.write,
        [.str stream.text, .str text]⟩ s fun answer s => .done
        ((answer.map fun _ => ()).mapError StreamError.ofChannel) s) log r s' := h
    cases hstep with
    | ask answer hbetween hrest =>
      obtain ⟨rfl, rfl, rfl⟩ := Step.course_done.1 hrest
      obtain ⟨v, rfl⟩ := hok _ List.mem_cons_self rfl
      refine ⟨rfl, hbetween.trans hw, fun t => ?_⟩
      simp [HostExchange.bytes, text_inj]

/-- A sink that holds the bytes of a text sends all of them. -/
lemma sent_of_drain {k : ChannelSink} (hw : s.workers[channel]? = some w)
    (hsink : w.sink stream = k) (hk : k.buffer = encode cs)
    (h : (k.drain (workerApi.write stream) (putSink channel stream) s).Course (Undisturbed channel)
      log r s') : Sent channel stream k.buffer (w.setSink .new stream) log r s' := by
  obtain ⟨bytes⟩ := k
  subst hk
  unfold ChannelSink.drain at h
  split at h
  · rename_i hempty
    have hnone : encode cs = [] := List.isEmpty_iff.1 hempty
    obtain ⟨rfl, rfl, rfl⟩ := Step.course_done.1 h
    rw [hnone] at hsink
    refine ⟨rfl, ?_, fun t => by simp [hnone]⟩
    exact hw.trans (congrArg some (setSink_self hsink).symm)
  · rw [ChannelSink.takeText_encode] at h
    have hsent := sent_of_sendText hok (workers_update hw (·.setSink .new stream)) h
    rwa [ofString_eq_encode, String.toList_ofList] at hsent

/-- A text is sent after all that the sink holds. -/
lemma sent_of_write {data : String} (hw : s.workers[channel]? = some w)
    (hsink : (w.sink stream).buffer = encode cs)
    (h : (write channel stream data s).Course (Undisturbed channel) log r s') :
    Sent channel stream ((w.sink stream).buffer ++ ofString data) (w.setSink .new stream) log r
      s' := by
  have hget : write channel stream data s = ChannelSink.write (workerApi.write stream)
    (putSink channel stream) ((s.worker channel).sink stream) data s := rfl
  rw [hget, worker_eq hw] at h
  obtain ⟨first, answer, s₁, rest, rfl, hdrain, hrest⟩ := Step.course_bind.1 h
  have hdrained := sent_of_drain (fun e he => hok e (List.mem_append_left _ he)) hw rfl hsink hdrain
  obtain rfl := hdrained.ok
  have hsent := sent_of_sendText (fun e he => hok e (List.mem_append_right _ he)) hdrained.worker
    hrest
  refine ⟨hsent.ok, hsent.worker, fun t => ?_⟩
  rw [List.flatMap_append, hdrained.bytes, hsent.bytes]
  split <;> rfl

lemma sent_of_flush (hw : s.workers[channel]? = some w)
    (hsink : (w.sink stream).buffer = encode cs)
    (h : (flush channel stream s).Course (Undisturbed channel) log r s') :
    Sent channel stream ((w.sink stream).buffer ++ []) (w.setSink .new stream) log r s' := by
  have hget : flush channel stream s = ChannelSink.drain (workerApi.write stream)
    (putSink channel stream) ((s.worker channel).sink stream) s := rfl
  rw [hget, worker_eq hw] at h
  rw [List.append_nil]
  exact sent_of_drain hok hw rfl hsink h

end

/-- A byte is kept, or it is a newline and sends the line. -/
lemma writeByte_eq (hw : s.workers[channel]? = some w) (b : UInt8) :
    (console channel).writeByte b s =
      if b = 10 then
        ChannelSink.drain (workerApi.write .stdout) (putSink channel .stdout)
          ⟨w.out.buffer ++ [b]⟩ (s.updateWorker channel (·.setSink ⟨w.out.buffer ++ [b]⟩ .stdout))
      else .done (.ok ()) (s.updateWorker channel (·.setSink ⟨w.out.buffer ++ [b]⟩ .stdout)) := by
  have hget : (console channel).writeByte b s = ChannelSink.writeByte (workerApi.write .stdout)
    (putSink channel .stdout) ((s.worker channel).sink .stdout) b s := rfl
  rw [hget, worker_eq hw]
  by_cases hb : b = 10
  · subst hb
    rfl
  · rw [if_neg hb]
    unfold ChannelSink.writeByte
    rw [if_neg (by simpa using hb)]
    rfl

/-! ## Conversations and calls -/

end WorkerContext

/-- An exchange of a script with its console, and the calls of the host that were made for it. -/
abbrev Delivery := ConsoleExchange × List HostExchange

/-- The bytes that were sent to a stream of the host, except by functions that the script called. -/
def Delivery.sent (stream : Stream) (d : Delivery) : List UInt8 :=
  match d.1.1 with
  | .call .. => []
  | _ => d.2.flatMap (HostExchange.bytes stream)

namespace WorkerContext

/-- What a worker's sinks have done with output, from one state of the worker to another one. -/
structure Delivered (w w' : WorkerContext) (ds : List Delivery) : Prop where
  /-- nothing is lost, and the order is kept: what was there or is written has been sent, except
  for what is there now -/
  sent : ∀ stream, ds.flatMap (·.sent stream) ++ (w'.sink stream).buffer =
    (w.sink stream).buffer ++ ds.flatMap (·.1.bytes stream)
  held : w'.out.buffer = (ds.map Prod.fst).foldl ConsoleExchange.heldBack w.out.buffer
  err : w.err.buffer = [] → w'.err.buffer = []

namespace Delivered
variable {w w₁ w₂ : WorkerContext} {ds ds' : List Delivery}

lemma refl (w : WorkerContext) : Delivered w w [] where
  sent _ := (List.append_nil _).symm
  held := rfl
  err := id

lemma append (h : Delivered w w₁ ds) (h' : Delivered w₁ w₂ ds') : Delivered w w₂ (ds ++ ds') where
  sent stream := by
    rw [List.flatMap_append, List.flatMap_append, List.append_assoc, h'.sent, ← List.append_assoc,
      h.sent, List.append_assoc]
  held := by rw [List.map_append, List.foldl_append, ← h.held, h'.held]
  err hw := h'.err (h.err hw)

end Delivered

/-- A worker between two texts: its sinks hold whole characters, and the one for errors nothing. -/
structure Rests (channel : ℕ) (s : EnvironmentState) (w : WorkerContext) : Prop where
  worker : s.workers[channel]? = some w
  out : ∃ cs, w.out.buffer = encode cs
  err : w.err.buffer = []

namespace Rests

lemma sink (h : Rests channel s w) : ∀ stream, ∃ cs, (w.sink stream).buffer = encode cs
  | .stdout => h.out
  | .stderr => ⟨[], h.err⟩

lemma setSink (h : Rests channel s w) (hs : s'.workers[channel]? = some (w.setSink .new stream)) :
    Rests channel s' (w.setSink .new stream) := by
  refine ⟨hs, ?_, ?_⟩
  · cases stream with
    | stdout => exact ⟨[], rfl⟩
    | stderr => exact h.out
  · cases stream with
    | stdout => exact h.err
    | stderr => rfl

end Rests

/-- What a computation of a worker does for a script's: whatever it does while all writes succeed,
there is a conversation of the script that it serves, and it deals with the output as it should. -/
def delivery (channel : ℕ) :
    MonadRel (WorkerTask EnvironmentState) (Task Unit ConsoleAsk ConsoleAsk.Answer) where
  rel x y := ∀ s log a s' w, (x s).Course (Undisturbed channel) log a s' →
    (∀ e ∈ log, HostExchange.WriteSucceeds e) → Rests channel s w →
    ∃ ds w', y.Exchanges (ds.map Prod.fst) a ∧ log = ds.flatMap Prod.snd ∧ Rests channel s' w' ∧
      Delivered w w' ds
  pure a s log b s' w h hok hrests := by
    obtain ⟨rfl, rfl, rfl⟩ := Step.course_done.1 h
    exact ⟨[], w, .pure _, rfl, hrests, .refl w⟩
  bind {_ _ x y f g} hx hf s log b s' w h hok hrests := by
    obtain ⟨first, a, s₁, rest, rfl, hfirst, hrest⟩ := Step.course_bind.1 h
    obtain ⟨ds, w₁, hy, hds, hrests₁, hdelivered⟩ :=
      hx s first a s₁ w hfirst (fun e he => hok e (List.mem_append_left _ he)) hrests
    obtain ⟨ds', w₂, hg, hds', hrests₂, hdelivered'⟩ :=
      hf a s₁ rest b s' w₁ hrest (fun e he => hok e (List.mem_append_right _ he)) hrests₁
    refine ⟨ds ++ ds', w₂, ?_, ?_, hrests₂, hdelivered.append hdelivered'⟩
    · rw [List.map_append]
      exact hy.bind hg
    · rw [List.flatMap_append, hds, hds']

/-- An operation of the console by which a stream's sink sends all that it holds and some bytes
after it. -/
lemma delivery_of_sent {x : WorkerTask EnvironmentState (Except StreamError Unit)}
    {y : Task Unit ConsoleAsk ConsoleAsk.Answer (Except StreamError Unit)} {e : ConsoleExchange}
    {data : List UInt8} (stream : Stream) (hy : y.Exchanges [e] (.ok ()))
    (hsent : ∀ log t, Delivery.sent t (e, log) = log.flatMap (HostExchange.bytes t))
    (hbytes : ∀ t, e.bytes t = if t = stream then data else [])
    (hheld : ∀ w : WorkerContext, e.heldBack w.out.buffer = (w.setSink .new stream).out.buffer)
    (hx : ∀ {s log r s' w cs}, (∀ e ∈ log, HostExchange.WriteSucceeds e) →
      s.workers[channel]? = some w → (w.sink stream).buffer = encode cs →
      (x s).Course (Undisturbed channel) log r s' →
      Sent channel stream ((w.sink stream).buffer ++ data) (w.setSink .new stream) log r s') :
    (delivery channel).rel x y := by
  intro s log r s' w h hok hrests
  obtain ⟨cs, hcs⟩ := hrests.sink stream
  have hdone := hx hok hrests.worker hcs h
  obtain rfl := hdone.ok
  have hrests' := hrests.setSink hdone.worker
  refine ⟨[(e, log)], _, hy, by simp, hrests', fun t => ?_, (hheld w).symm, fun _ => hrests'.err⟩
  rw [List.flatMap_singleton, List.flatMap_singleton, hsent, hdone.bytes, hbytes, sink_setSink]
  by_cases ht : t = stream
  · subst ht
    simp [ChannelSink.new]
  · simp [ht]

lemma delivery_write (data : String) :
    (delivery channel).rel ((console channel).write data) (Console.asking.write data) :=
  delivery_of_sent .stdout (.asked (.write data) (.ok ())) (fun _ _ => rfl)
    (fun t => by cases t <;> rfl) (fun _ => rfl) fun hok => sent_of_write hok

lemma delivery_writeError (data : String) :
    (delivery channel).rel ((console channel).writeError data)
      (Console.asking.writeError data) :=
  delivery_of_sent .stderr (.asked (.writeError data) (.ok ())) (fun _ _ => rfl)
    (fun t => by cases t <;> rfl) (fun _ => rfl) fun hok => sent_of_write hok

lemma delivery_flush :
    (delivery channel).rel (console channel).flush Console.asking.flush :=
  delivery_of_sent .stdout (.asked .flush (.ok ())) (fun _ _ => rfl)
    (fun t => by cases t <;> rfl) (fun _ => rfl) sent_of_flush

lemma delivery_flushError :
    (delivery channel).rel (console channel).flushError Console.asking.flushError :=
  delivery_of_sent .stderr (.asked .flushError (.ok ())) (fun _ _ => rfl)
    (fun t => by cases t <;> rfl) (fun _ => rfl) sent_of_flush

/-- An exchange that leaves the worker as it is. -/
lemma delivered_of_unchanged {d : Delivery} (hsent : ∀ t, d.sent t = [])
    (hbytes : ∀ t, d.1.bytes t = []) (hheld : d.1.heldBack w.out.buffer = w.out.buffer) :
    Delivered w w [d] where
  sent t := by simp [hsent, hbytes]
  held := hheld.symm
  err := id

/-- A computation writes nothing to the host and leaves the worker as it is. -/
def Quiet (channel : ℕ) {α : Type} (x : WorkerTask EnvironmentState α) : Prop :=
  ∀ s log a s', (x s).Course (Undisturbed channel) log a s' →
    Undisturbed channel s s' ∧ ∀ t, log.flatMap (HostExchange.bytes t) = []

namespace Quiet
variable {α β : Type}

lemma pure (a : α) : Quiet channel (Pure.pure a) := by
  intro s log b s' h
  obtain ⟨rfl, rfl, rfl⟩ := Step.course_done.1 h
  exact ⟨rfl, fun t => rfl⟩

lemma bind {x : WorkerTask EnvironmentState α} {f : α → WorkerTask EnvironmentState β}
    (hx : Quiet channel x) (hf : ∀ a, Quiet channel (f a)) : Quiet channel (x >>= f) := by
  intro s log b s' h
  obtain ⟨first, a, s₁, rest, rfl, hfirst, hrest⟩ := Step.course_bind.1 h
  obtain ⟨hsame, hquiet⟩ := hx s first a s₁ hfirst
  obtain ⟨hsame', hquiet'⟩ := hf a s₁ rest b s' hrest
  exact ⟨hsame'.trans hsame, fun t => by rw [List.flatMap_append, hquiet, hquiet']; rfl⟩

lemma callHost {method : String} (hmethod : method ≠ Method.write) (args : List Value) :
    Quiet channel (callHost (.method method) args) := by
  intro s log r s' h
  cases h with
  | ask r hbetween hrest =>
    obtain ⟨rfl, rfl, rfl⟩ := Step.course_done.1 hrest
    refine ⟨hbetween, fun t => ?_⟩
    simp only [List.flatMap_singleton, HostExchange.bytes]
    split
    · rename_i heq
      obtain ⟨htarget, -⟩ := HostCall.mk.inj heq
      rw [if_neg fun h => hmethod ((Target.method.inj htarget).trans h.1)]
    · rfl

lemma readHeap (f : Heap → α) : Quiet channel (readHeap f) := by
  intro s log a s' h
  obtain ⟨rfl, rfl, rfl⟩ := Step.course_done.1 h
  exact ⟨rfl, fun t => rfl⟩

/-- Reading asks for a line, and for nothing else. -/
lemma readLine (prompt : Option String) : Quiet channel ((console channel).readLine prompt) := by
  refine bind (bind (callHost (by decide) _) fun answer => ?_) fun answer => ?_
  · split
    · exact pure _
    · exact bind (readHeap _) fun _ => pure _
    · exact pure _
  · split <;> exact pure _

end Quiet

lemma delivery_readLine (prompt : Option String) :
    (delivery channel).rel ((console channel).readLine prompt)
      (Console.asking.readLine prompt) := by
  intro s log r s' w h hok hrests
  obtain ⟨hsame, hlog⟩ := Quiet.readLine prompt s log r s' h
  exact ⟨[(⟨.readLine prompt, r⟩, log)], w, .asked (.readLine prompt) r, by simp,
    ⟨hsame.trans hrests.worker, hrests.out, hrests.err⟩,
    delivered_of_unchanged hlog (fun t => by cases t <;> rfl) rfl⟩

lemma delivery_display (v : Value) :
    (delivery channel).rel ((console channel).display v) (Console.asking.display v) := by
  intro s log text s' w h hok hrests
  obtain ⟨rfl, rfl, rfl⟩ := Step.course_done.1 h
  exact ⟨[(⟨.display v, s.heap.display v⟩, [])], w, .asked (.display v) _, rfl, hrests,
    delivered_of_unchanged (fun t => rfl) (fun t => by cases t <;> rfl) rfl⟩

lemma delivery_call (f : Function) (args : List Value) :
    (delivery channel).rel ((console channel).call f args) (Console.asking.call f args) := by
  intro s log r s' w h hok hrests
  have hsame : s'.workers[channel]? = s.workers[channel]? :=
    (Task.keeps_overlooks fun _ _ hbetween => hbetween).function (fun _ _ => rfl) args f.body s log r
      s' h
  exact ⟨[(⟨.call f args, r⟩, log)], w, .asked (.call f args) r, by simp,
    ⟨hsame.trans hrests.worker, hrests.out, hrests.err⟩,
    delivered_of_unchanged (fun t => rfl) (fun t => by cases t <;> rfl) rfl⟩

/-! ## Bytes -/

lemma setSink_setSink (w : WorkerContext) (k k' : ChannelSink) :
    (w.setSink k stream).setSink k' stream = w.setSink k' stream := by
  cases stream <;> rfl

/-- A byte that a sink takes: it holds it back, or sends a line that ends with it. -/
lemma delivered_byte {b : UInt8} {rest : List UInt8} (hw : s.workers[channel]? = some w)
    (hbuffer : w.out.buffer ++ b :: rest = encode cs)
    (hok : ∀ e ∈ log, HostExchange.WriteSucceeds e)
    (h : ((console channel).writeByte b s).Course (Undisturbed channel) log r s') :
    r = .ok () ∧ ∃ w', s'.workers[channel]? = some w' ∧
      (∃ cs, w'.out.buffer ++ rest = encode cs) ∧
      Delivered w w' [(⟨.writeByte b, .ok ()⟩, log)] := by
  rw [writeByte_eq hw] at h
  have hworker := workers_update hw (·.setSink ⟨w.out.buffer ++ [b]⟩ .stdout)
  have hsink : (w.setSink ⟨w.out.buffer ++ [b]⟩ .stdout).sink .stdout = ⟨w.out.buffer ++ [b]⟩ := rfl
  split at h
  · rename_i hnewline
    subst hnewline
    -- no character has a newline inside it, so what the newline ends is a text of its own
    obtain ⟨ds, es, -, hline, hrest⟩ := encode_split hbuffer.symm
    have hsent := sent_of_drain hok hworker hsink hline h
    rw [setSink_setSink] at hsent
    refine ⟨hsent.ok, _, hsent.worker, ⟨es, hrest⟩, fun t => ?_, ?_, id⟩
    · show [_].flatMap _ ++ _ = _
      rw [List.flatMap_singleton, List.flatMap_singleton]
      show log.flatMap (HostExchange.bytes t) ++ _ = _
      rw [hsent.bytes, sink_setSink]
      cases t with
      | stdout => exact List.append_nil _
      | stderr => exact (List.append_nil _).symm
    · rfl
  · rename_i hnewline
    obtain ⟨rfl, rfl, rfl⟩ := Step.course_done.1 h
    refine ⟨rfl, _, hworker, ⟨cs, ?_⟩, fun t => ?_, ?_, id⟩
    · rw [← hbuffer]
      exact List.append_assoc ..
    · cases t with
      | stdout => rfl
      | stderr => exact (List.append_nil _).symm
    · exact (if_neg hnewline).symm

/-- The bytes of a text that arrive one by one, from any point inside it. -/
lemma delivered_bytes {bytes : List UInt8} {shell : Shell}
    {result : Except InterpreterError Unit × Shell}
    (hw : s.workers[channel]? = some w) (hbuffer : w.out.buffer ++ bytes = encode cs)
    (herr : w.err.buffer = []) (hok : ∀ e ∈ log, HostExchange.WriteSucceeds e)
    (h : ((Shell.putBytes (console channel) bytes).run.run shell s).Course (Undisturbed channel) log
      result s') :
    ∃ ds w', Task.Exchanges ((Shell.putBytes Console.asking bytes).run.run shell) (ds.map Prod.fst)
        result ∧ log = ds.flatMap Prod.snd ∧ Rests channel s' w' ∧ Delivered w w' ds := by
  induction bytes generalizing s log w cs with
  | nil =>
    obtain ⟨rfl, rfl, rfl⟩ := Step.course_done.1 h
    rw [List.append_nil] at hbuffer
    exact ⟨[], w, .pure _, rfl, ⟨hw, ⟨cs, hbuffer⟩, herr⟩, .refl w⟩
  | cons b rest ih =>
    rw [Shell.putBytes, run_stream_bind] at h ⊢
    obtain ⟨first, r, s₁, more, rfl, hfirst, hmore⟩ := Step.course_bind.1 h
    obtain ⟨rfl, w₁, hw₁, ⟨cs₁, hbuffer₁⟩, hbyte⟩ :=
      delivered_byte hw hbuffer (fun e he => hok e (List.mem_append_left _ he)) hfirst
    obtain ⟨ds, w', hrest, rfl, hrests, hdelivered⟩ := ih hw₁ hbuffer₁ (hbyte.err herr)
      (fun e he => hok e (List.mem_append_right _ he)) hmore
    refine ⟨(⟨.writeByte b, .ok ()⟩, first) :: ds, w', ?_, rfl, hrests, hbyte.append hdelivered⟩
    exact Task.Exchanges.bind (.asked (.writeByte b) (.ok ())) hrest

lemma delivery_put (text : List Char) :
    (delivery channel).line.rel (Shell.putBytes (console channel) (encode text))
      (Shell.putBytes Console.asking (encode text)) := by
  intro shell s log result s' w h hok hrests
  obtain ⟨cs, hcs⟩ := hrests.out
  have hbuffer : w.out.buffer ++ encode text = encode (cs ++ text) := by
    rw [hcs, encode_append]
  exact delivered_bytes hrests.worker hbuffer hrests.err hok h

/-- What a worker's console does is what a script asks for, and the output is dealt with. -/
theorem lockstep (channel : ℕ) :
    Console.Lockstep (delivery channel) (console channel) Console.asking where
  write := delivery_write
  put := delivery_put
  flush := delivery_flush
  writeError := delivery_writeError
  flushError := delivery_flushError
  readLine := delivery_readLine
  call := delivery_call
  display := delivery_display

/-- What a run of a script in a worker has done with its output, from one state of the worker to
another one. -/
structure RunDelivered (code : String) (w w' : WorkerContext) (ds : List Delivery)
    (log : List HostExchange) (result : Except InterpreterError Value) : Prop where
  /-- these are all calls of the host, exchange by exchange -/
  log : log = ds.flatMap Prod.snd
  /-- the script has had these exchanges, and ended so -/
  converses : w.shell.Converses code (ds.map Prod.fst) result w'.shell
  /-- what it wrote to a stream has been sent in its order, except for what is still held back -/
  sent : ∀ stream, ds.flatMap (·.sent stream) ++ (w'.sink stream).buffer =
    ds.flatMap (·.1.bytes stream)
  /-- errors are never held back -/
  err : w'.err.buffer = []
  /-- of the output it is what was put after the last newline, text or flush -/
  held : w'.out.buffer = (ds.map Prod.fst).foldl ConsoleExchange.heldBack []
  /-- and nothing at all if the run has a value -/
  flushed : ∀ v, result = .ok v → w'.out.buffer = []

/-- A script that a worker runs with empty sinks, while all its writes succeed, whatever the host
answers and whatever else happens meanwhile. -/
theorem execute_delivers {code : String} {result : Except InterpreterError Value}
    (hw : s.workers[channel]? = some w) (hout : w.out.buffer = []) (herr : w.err.buffer = [])
    (h : (execute channel code s).Course (Undisturbed channel) log result s')
    (hok : ∀ e ∈ log, HostExchange.WriteSucceeds e) :
    ∃ ds w', s'.workers[channel]? = some w' ∧ RunDelivered code w w' ds log result := by
  have hrun : execute channel code s = ((s.worker channel).shell.run (console channel) code s).bind
      fun p s => .done p.1 (s.updateWorker channel fun w => { w with shell := p.2 }) := rfl
  rw [hrun, worker_eq hw] at h
  obtain ⟨first, ⟨r, shell⟩, s₁, rest, rfl, hfirst, hrest⟩ := Step.course_bind.1 h
  obtain ⟨rfl, rfl, rfl⟩ := Step.course_done.1 hrest
  rw [List.append_nil] at hok ⊢
  obtain ⟨ds, w₁, hconverses, hlog, hrests, hdelivered⟩ :=
    (lockstep channel).run code w.shell s first (result, shell) s₁ w hfirst hok
      ⟨hw, ⟨[], hout⟩, herr⟩
  have hheld := hdelivered.held
  rw [hout] at hheld
  refine ⟨ds, { w₁ with shell := shell }, workers_update hrests.worker _, hlog, hconverses,
    fun stream => ?_, hrests.err, hheld, ?_⟩
  · have hempty : (w.sink stream).buffer = [] := by cases stream <;> assumption
    have hsent := hdelivered.sent stream
    rw [hempty, List.nil_append] at hsent
    rw [← hsent]
    cases stream <;> rfl
  · rintro v rfl
    obtain ⟨before, hbefore⟩ := Shell.Converses.flushed hconverses
    rw [hbefore, List.foldl_append] at hheld
    exact hheld

/-- An environment with one worker. -/
def oneWorker : EnvironmentState where
  __ := EnvironmentState.new .host .default ⟨⟨[], []⟩, none⟩
  workers := #[⟨"worker-1", .new .worker .default, .new Shell.currentVersion, .null, false, .new,
    .new⟩]

/-- The same environment once its worker has put two bytes and held them back. -/
def heldBack : EnvironmentState :=
  oneWorker.updateWorker 0 fun w => { w with out := ⟨ofString "hi"⟩ }

lemma course_heldBack : (execute 0 "put hi\nfail E x" oneWorker).Course (Undisturbed 0) []
    (.error ⟨"E", "x"⟩) heldBack := by
  have hdone : execute 0 "put hi\nfail E x" oneWorker = .done (.error ⟨"E", "x"⟩) heldBack := rfl
  rw [hdone]
  exact .done _ _

theorem execute_delivers_heldBack : ∃ ds w',
    RunDelivered "put hi\nfail E x" (oneWorker.worker 0) w' ds [] (.error ⟨"E", "x"⟩) ∧
      w'.out.buffer = ofString "hi" := by
  obtain ⟨ds, w', hw', hrun⟩ := execute_delivers rfl rfl rfl course_heldBack (by simp)
  obtain rfl : _ = w' := Option.some.inj hw'
  exact ⟨ds, _, hrun, rfl⟩

end WorkerContext

/-! ## Local runs -/

namespace LocalInterpreter
variable {α : Type} {l : LocalInterpreter} {s : EnvironmentState}

/-- The bytes of an exchange on either stream, which go to one output. -/
def shown (e : ConsoleExchange) : List UInt8 := e.bytes .stdout ++ e.bytes .stderr

/-- What a local computation does for a script's: all that is written is shown, in order and at
once. -/
structure Shows (s : EnvironmentState) (y : Task Unit ConsoleAsk ConsoleAsk.Answer α)
    (es : List ConsoleExchange) (p : (α × LocalInterpreter) × EnvironmentState) : Prop where
  exchanges : y.Exchanges es p.1.1
  out : p.1.2.out = .new
  err : p.1.2.err = .new
  output : ofString p.2.output = ofString s.output ++ es.flatMap shown

def showing : MonadRel LocalM (Task Unit ConsoleAsk ConsoleAsk.Answer) where
  rel x y := ∀ l s, l.out = .new → l.err = .new → ∃ es, Shows s y es ((x.run l).run s)
  pure a l s hout herr := ⟨[], .pure a, hout, herr, (List.append_nil _).symm⟩
  bind {_ _ x y f g} hx hf l s hout herr := by
    obtain ⟨es, hes⟩ := hx l s hout herr
    obtain ⟨es', hes'⟩ := hf _ _ _ hes.out hes.err
    refine ⟨es ++ es', hes.exchanges.bind hes'.exchanges, hes'.out, hes'.err, ?_⟩
    rw [List.flatMap_append, ← List.append_assoc, ← hes.output]
    exact hes'.output

lemma ofString_append (a b : String) : ofString (a ++ b) = ofString a ++ ofString b := by
  simp only [ofString_eq_encode, String.toList_append, encode_append]

/-- Texts that are shown one after the other. -/
lemma output_print (texts : List String) (s : EnvironmentState) :
    ofString (texts.foldl (fun s text => s.print text) s).output =
      ofString s.output ++ texts.flatMap ofString := by
  induction texts generalizing s with
  | nil => exact (List.append_nil _).symm
  | cons text rest ih =>
    rw [List.foldl_cons, ih, List.flatMap_cons, ← List.append_assoc]
    exact congrArg (· ++ _) (ofString_append _ _)

/-- The bytes of a text that are put one by one go to the sink in turn. -/
lemma run_putBytes (bytes : List UInt8) (shell : Shell) (l : LocalInterpreter)
    (s : EnvironmentState) :
    (((Shell.putBytes console bytes).run.run shell).run l).run s =
      (((.ok (), shell), { l with out := (l.out.writeBytes bytes).2 }),
        (l.out.writeBytes bytes).1.foldl (fun s text => s.print text) s) := by
  induction bytes generalizing l s with
  | nil => rfl
  | cons b rest ih =>
    have hbyte := ih { l with out := (l.out.writeByte b).2 }
      ((l.out.writeByte b).1.foldl (fun s text => s.print text) s)
    rw [Shell.putBytes, run_stream_bind, SurfaceSink.writeBytes, List.foldl_append]
    exact hbyte

/-- Putting bytes is a conversation of its own. -/
lemma exchanges_putBytes (bytes : List UInt8) (shell : Shell) :
    Task.Exchanges ((Shell.putBytes Console.asking bytes).run.run shell)
      (bytes.map fun b => ⟨.writeByte b, .ok ()⟩) (.ok (), shell) := by
  induction bytes with
  | nil => exact .pure _
  | cons b rest ih =>
    rw [Shell.putBytes, run_stream_bind]
    exact Task.Exchanges.bind (.asked (.writeByte b) (.ok ())) ih

lemma showing_put (text : List Char) :
    showing.line.rel (Shell.putBytes console (encode text))
      (Shell.putBytes Console.asking (encode text)) := by
  intro shell l s hout herr
  refine ⟨(encode text).map fun b => ⟨.writeByte b, .ok ()⟩, ?_⟩
  rw [run_putBytes, hout, SurfaceSink.writeBytes_encode]
  refine ⟨exchanges_putBytes _ shell, rfl, herr, ?_⟩
  have htexts : (text.map fun c => String.ofList [c]).flatMap ofString = encode text := by
    rw [List.flatMap_map, encode]
    congr 1
    funext c
    rw [ofString_eq_encode, String.toList_ofList]
    exact List.append_nil _
  have hbytes : ((encode text).map fun b => (⟨.writeByte b, .ok ()⟩ : ConsoleExchange)).flatMap
      shown = encode text := by
    rw [List.flatMap_map]
    exact List.flatMap_singleton' _
  rw [output_print, htexts, hbytes]

/-- What a local console does is what a script asks for, and the output is shown. -/
theorem lockstep : Console.Lockstep showing console Console.asking where
  write data := by
    rintro ⟨shell, out, err⟩ s rfl rfl
    exact ⟨[⟨.write data, .ok ()⟩], .asked (.write data) (.ok ()), rfl, rfl,
      (output_print [data] s).trans (by simp [shown, ConsoleExchange.bytes])⟩
  put := showing_put
  flush := by
    rintro ⟨shell, out, err⟩ s rfl rfl
    exact ⟨[⟨.flush, .ok ()⟩], .asked .flush (.ok ()), rfl, rfl, (List.append_nil _).symm⟩
  writeError data := by
    rintro ⟨shell, out, err⟩ s rfl rfl
    exact ⟨[⟨.writeError data, .ok ()⟩], .asked (.writeError data) (.ok ()), rfl, rfl,
      (output_print [data] s).trans (by simp [shown, ConsoleExchange.bytes])⟩
  flushError := by
    rintro ⟨shell, out, err⟩ s rfl rfl
    exact ⟨[⟨.flushError, .ok ()⟩], .asked .flushError (.ok ()), rfl, rfl, (List.append_nil _).symm⟩
  readLine prompt := fun l s hout herr =>
    ⟨[⟨.readLine prompt, .ok none⟩], .asked _ _, hout, herr, (List.append_nil _).symm⟩
  call f args := fun l s hout herr =>
    ⟨[⟨.call f args, (f.call s.heap args).1⟩], .asked _ _, hout, herr, (List.append_nil _).symm⟩
  display v := fun l s hout herr =>
    ⟨[⟨.display v, s.heap.display v⟩], .asked _ _, hout, herr, (List.append_nil _).symm⟩

lemma run_execute (code : String) (l : LocalInterpreter) :
    (execute code).run l = (fun p => (p.1.1, { p.2 with shell := p.1.2 })) <$>
      (Shell.run console code l.shell).run l := by
  rw [execute, StateT.run_bind, StateT.run_get]
  rfl

/-- A script of a local interpreter whose sinks are between characters: when it ends, with a value
or an error, all that it wrote has been shown in its order, and the sinks hold nothing back. -/
theorem execute_shows (code : String) (hout : l.out = .new) (herr : l.err = .new)
    (s : EnvironmentState) : ∃ es result l' s',
      ((execute code).run l).run s = ((result, l'), s') ∧
      l.shell.Converses code es result l'.shell ∧ l'.out = .new ∧ l'.err = .new ∧
      ofString s'.output = ofString s.output ++ es.flatMap shown := by
  obtain ⟨es, hes⟩ := lockstep.run code l.shell l s hout herr
  rw [run_execute, StateT.run_map]
  generalize ((Shell.run console code l.shell).run l).run s = p at hes ⊢
  exact ⟨es, _, _, _, rfl, hes.exchanges, hes.out, hes.err, hes.output⟩

/-- Two bytes are put before the script fails: a local run shows them, and a worker's run ends
without a call of its host. -/
theorem not_every_byte_delivered : ∃ s' l t,
    (WorkerContext.execute 0 "put hi\nfail E x" WorkerContext.oneWorker).Course
        (WorkerContext.Undisturbed 0) [] (.error ⟨"E", "x"⟩) s' ∧
      (s'.worker 0).out.buffer = ofString "hi" ∧
      ((execute "put hi\nfail E x").run ⟨.new Shell.currentVersion, .new, .new⟩).run
        WorkerContext.oneWorker = ((.error ⟨"E", "x"⟩, l), t) ∧ t.output = "hi" :=
  ⟨WorkerContext.heldBack, _, _, WorkerContext.course_heldBack, rfl, rfl, rfl⟩

end LocalInterpreter
end WorkerHost
