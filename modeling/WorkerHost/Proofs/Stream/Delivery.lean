import Mathlib.Data.List.Induction
import Mathlib.Data.List.Infix
import WorkerHost.Proofs.Stream.Malformed
import WorkerHost.Proofs.Text.Whole
import WorkerHost.Stream.Memory
import WorkerHost.Stream.Stdio

/-!
# Delivery of output

What is given to a sink is bytes, of whole texts or one by one. At any time the bytes of what has
been put out and those that are pending are just the bytes given, `Delivered`, and each operation of
a sink keeps it so. When a character is over nothing is pending after a flush, so all sinks put out
the same text, `ChannelSink.delivers`.
-/

namespace WorkerHost

open Text Utf8

/-- One more run after some others. -/
lemma run_mapM_concat {σ α β : Type} {f : α → StateM σ β} {l : List α} {a : α} {s s' s'' : σ}
    {bs : List β} {b : β} (h : StateT.run (l.mapM f) s = (bs, s'))
    (ha : StateT.run (f a) s' = (b, s'')) :
    StateT.run ((l ++ [a]).mapM f) s = (bs ++ [b], s'') := by
  have hlast : StateT.run ([a].mapM f) s' = ([b], s'') := by
    rw [List.mapM_cons, List.mapM_nil, StateT.run_bind, ha]
    rfl
  have hrest : StateT.run ([a].mapM f >>= fun cs => pure (bs ++ cs)) s' = (bs ++ [b], s'') := by
    rw [StateT.run_bind, hlast]
    rfl
  rw [List.mapM_append, StateT.run_bind, h]
  exact hrest

/-- An operation of a sink. -/
inductive SinkOp where
  | write (data : String)
  | byte (b : UInt8)
  | flush

namespace SinkOp

/-- The bytes that are given by operations. -/
def given (ops : List SinkOp) : List UInt8 :=
  ops.flatMap fun
    | write data => ofString data
    | byte b => [b]
    | flush => []

/-- The bytes that are given one by one. -/
def pushed (ops : List SinkOp) : List UInt8 :=
  ops.flatMap fun
    | byte b => [b]
    | write _ | flush => []

def isWrite : SinkOp → Bool
  | write _ => true
  | byte _ | flush => false

def isByte : SinkOp → Bool
  | byte _ => true
  | write _ | flush => false

/-- Some operations come between characters only. -/
def Between (p : SinkOp → Bool) (ops : List SinkOp) : Prop :=
  ∀ before op after, ops = before ++ op :: after → p op = true → Whole (pushed before)

variable {ops more : List SinkOp}

lemma given_append : given (ops ++ more) = given ops ++ given more :=
  List.flatMap_append

lemma pushed_append : pushed (ops ++ more) = pushed ops ++ pushed more :=
  List.flatMap_append

@[simp] lemma given_flush (ops : List SinkOp) : given (ops ++ [flush]) = given ops := by
  rw [given_append]
  exact List.append_nil _

@[simp] lemma pushed_flush (ops : List SinkOp) : pushed (ops ++ [flush]) = pushed ops := by
  rw [pushed_append]
  exact List.append_nil _

lemma Between.of_append {p : SinkOp → Bool} (h : Between p (ops ++ more)) : Between p ops := by
  rintro before op after rfl hp
  exact h before op (after ++ more) (by rw [List.append_assoc, List.cons_append]) hp

lemma between_nil (p : SinkOp → Bool) : Between p [] := by
  intro before op after heq
  cases (List.nil_eq_append_iff.1 heq).2

lemma Between.concat {p : SinkOp → Bool} {op : SinkOp} (h : Between p ops)
    (hop : p op = true → Whole (pushed ops)) : Between p (ops ++ [op]) := by
  intro before op' after heq hp
  rcases List.eq_nil_or_concat' after with rfl | ⟨after, last, rfl⟩
  · obtain ⟨rfl, hlast⟩ := List.append_inj' heq rfl
    cases hlast
    exact hop hp
  · rw [← List.cons_append, ← List.append_assoc] at heq
    exact h before op' after (List.append_inj' heq rfl).1 hp

end SinkOp

open SinkOp

/-- What has been put out of the bytes given by some operations, and what is pending. -/
structure Delivered (ops : List SinkOp) (text : String) (pending : List UInt8) : Prop where
  given : ofString text ++ pending = given ops
  pushed : ∃ cs, pushed ops = encode cs ++ pending

namespace Delivered
variable {ops : List SinkOp} {text : String} {pending : List UInt8} {cs : List Char}

lemma start : Delivered [] "" [] :=
  ⟨rfl, [], rfl⟩

/-- Pending characters are put out. -/
lemma send (h : Delivered ops text (encode cs ++ pending)) :
    Delivered ops (text ++ String.ofList cs) pending := by
  obtain ⟨ds, hds⟩ := h.pushed
  refine ⟨?_, ds ++ cs, ?_⟩
  · rw [ofString_append, ofString_ofList, List.append_assoc]
    exact h.given
  · rw [encode_append, List.append_assoc]
    exact hds

lemma write (h : Delivered ops text []) (data : String) :
    Delivered (ops ++ [.write data]) (text ++ data) [] := by
  obtain ⟨ds, hds⟩ := h.pushed
  refine ⟨?_, ds, ?_⟩
  · rw [given_append, ← h.given, ofString_append]
    simp [SinkOp.given]
  · rw [pushed_append, hds]
    simp [SinkOp.pushed]

lemma byte (h : Delivered ops text pending) (b : UInt8) :
    Delivered (ops ++ [.byte b]) text (pending ++ [b]) := by
  obtain ⟨ds, hds⟩ := h.pushed
  refine ⟨?_, ds, ?_⟩
  · rw [given_append, ← h.given, List.append_assoc]
    rfl
  · rw [pushed_append, hds, List.append_assoc]
    rfl

lemma flush (h : Delivered ops text pending) : Delivered (ops ++ [.flush]) text pending :=
  ⟨by rw [h.given, given_flush], by simpa using h.pushed⟩

/-- What is pending when characters are whole is whole itself. -/
lemma whole (h : Delivered ops text pending) (hwhole : Whole (SinkOp.pushed ops)) :
    Whole pending := by
  obtain ⟨ds, hds⟩ := h.pushed
  rw [hds] at hwhole
  exact hwhole.of_append

/-- A flush leaves no more than the beginning of a character. -/
lemma exists_send (h : Delivered ops text pending) {more : List UInt8}
    (hwhole : Whole (SinkOp.pushed ops ++ more)) :
    ∃ cs cut, pending = encode cs ++ cut ∧ Begun cut := by
  obtain ⟨ds, hds⟩ := h.pushed
  rw [hds, List.append_assoc] at hwhole
  exact exists_eq_append_begun hwhole.of_append

end Delivered

/-! ## Over a channel -/

section
variable {σ : Type} {send : String → StateM σ (Except ChannelError Unit)} {sent : σ → List String}
  {good : σ → Prop}

/-- A host takes all that is sent, as long as its state is good. -/
structure Accepts (send : String → StateM σ (Except ChannelError Unit)) (sent : σ → List String)
    (good : σ → Prop) : Prop where
  answers {s : σ} (hs : good s) (text : String) : (send text s).1 = .ok ()
  stays {s : σ} (hs : good s) (text : String) : good (send text s).2
  records {s : σ} (hs : good s) (text : String) : sent (send text s).2 = sent s ++ [text]

/-- What a host has been sent between two states. -/
def Sends (sent : σ → List String) (good : σ → Prop) (s s' : σ) (text : String) : Prop :=
  good s' ∧ ∃ texts, sent s' = sent s ++ texts ∧ String.join texts = text

variable {s s' s'' : σ} {text text' : String}

lemma Sends.refl (hs : good s) : Sends sent good s s "" :=
  ⟨hs, [], (List.append_nil _).symm, rfl⟩

lemma Sends.trans (h : Sends sent good s s' text) (h' : Sends sent good s' s'' text') :
    Sends sent good s s'' (text ++ text') := by
  obtain ⟨-, texts, hs, rfl⟩ := h
  obtain ⟨hgood, texts', hs', rfl⟩ := h'
  exact ⟨hgood, texts ++ texts', by rw [hs', hs, List.append_assoc], String.join_append⟩

namespace ChannelSink

/-- Performs an operation of a sink that a state holds. -/
def perform (send : String → StateM σ (Except ChannelError Unit)) (op : SinkOp) :
    StateM (σ × ChannelSink) (Except StreamError Unit) := do
  let (_, sink) ← get
  match op with
  | .write data => sink.write lifted store data
  | .byte b => sink.writeByte lifted store b
  | .flush => sink.drain lifted store
where
  lifted (text : String) : StateM (σ × ChannelSink) (Except ChannelError Unit) := fun (s, sink) =>
    let (r, s) := send text s
    (r, (s, sink))
  store (sink : ChannelSink) : StateM (σ × ChannelSink) Unit :=
    modify fun (s, _) => (s, sink)

variable (ha : Accepts send sent good)
include ha

lemma sendText_sends (hs : good s) (sink : ChannelSink) (text : String) :
    ∃ s', StateT.run (sendText (perform.lifted send) text) (s, sink) = (.ok (), (s', sink)) ∧
      Sends sent good s s' text := by
  by_cases hempty : text.isEmpty = true
  · obtain rfl := String.isEmpty_iff.1 hempty
    exact ⟨s, rfl, .refl hs⟩
  · refine ⟨(send text s).2, ?_, ha.stays hs text, [text], ha.records hs text, ?_⟩
    · have hover : StateT.run (perform.lifted send text) (s, sink) =
          ((.ok (), ((send text s).2, sink)) : Except ChannelError Unit × σ × ChannelSink) :=
        congrArg (·, _) (ha.answers hs text)
      rw [sendText, if_neg hempty, StateT.run_bind, hover]
      rfl
    · exact String.join_cons.trans String.append_empty

/-- All characters that a sink holds are sent, and the beginning of one more stays. -/
lemma drain_sends (hs : good s) {cut : List UInt8} (hcut : Begun cut) (cs : List Char) :
    ∃ s', StateT.run (drain (perform.lifted send) perform.store ⟨encode cs ++ cut⟩)
        (s, ⟨encode cs ++ cut⟩) = (.ok (), (s', ⟨cut⟩)) ∧
      Sends sent good s s' (String.ofList cs) := by
  by_cases hempty : (encode cs ++ cut).isEmpty = true
  · obtain ⟨hcs, rfl⟩ : encode cs = [] ∧ cut = [] := by simpa using hempty
    have hnil : String.ofList cs = "" := by
      rw [← decodeLossy_encode cs, hcs]
      rfl
    rw [hcs, hnil]
    exact ⟨s, rfl, .refl hs⟩
  · obtain ⟨s', hsend, hsends⟩ := sendText_sends ha hs ⟨cut⟩ (String.ofList cs)
    refine ⟨s', ?_, hsends⟩
    rw [drain, if_neg hempty, takeText_encode_append hcut]
    exact hsend

/-- What is pending in the middle of a text is delivered, but for a character that has begun. -/
lemma drain_delivers (hs : good s) {ops : List SinkOp} {buffer more : List UInt8}
    (h : Delivered ops text buffer) (hwhole : Whole (pushed ops ++ more)) :
    ∃ s' text' cut, StateT.run (drain (perform.lifted send) perform.store ⟨buffer⟩) (s, ⟨buffer⟩) =
        (.ok (), (s', ⟨cut⟩)) ∧
      Sends sent good s s' text' ∧ Delivered ops (text ++ text') cut ∧ Begun cut := by
  obtain ⟨cs, cut, rfl, hcut⟩ := h.exists_send hwhole
  obtain ⟨s', hdrain, hsends⟩ := drain_sends ha hs hcut cs
  exact ⟨s', String.ofList cs, cut, hdrain, hsends, h.send, hcut⟩

/-- Each operation delivers what is given by it. -/
lemma perform_delivers (hs : good s) {ops : List SinkOp} {sink : ChannelSink} {more : List UInt8}
    (op : SinkOp) (h : Delivered ops text sink.buffer)
    (hop : op.isWrite = true → Whole (pushed ops)) (hwhole : Whole (pushed (ops ++ [op]) ++ more)) :
    ∃ s' text' sink', StateT.run (perform send op) (s, sink) = (.ok (), (s', sink')) ∧
      Sends sent good s s' text' ∧ Delivered (ops ++ [op]) (text ++ text') sink'.buffer ∧
      (op = .flush → Begun sink'.buffer) := by
  obtain ⟨buffer⟩ := sink
  cases op with
  | write data =>
    have hpushed : Whole (pushed ops ++ []) := by rw [List.append_nil]; exact hop rfl
    obtain ⟨s₁, text₁, cut, hdrain, hsends, h₁, hcut⟩ := drain_delivers ha hs h hpushed
    obtain rfl := hcut.eq_nil (h₁.whole (hop rfl))
    obtain ⟨s₂, hsend, hsends'⟩ := sendText_sends ha hsends.1 ⟨[]⟩ data
    refine ⟨s₂, text₁ ++ data, ⟨[]⟩, ?_, hsends.trans hsends', ?_, nofun⟩
    · have hrun : StateT.run (perform send (.write data)) (s, ⟨buffer⟩) =
          StateT.run (ChannelSink.write (perform.lifted send) perform.store ⟨buffer⟩ data)
            (s, ⟨buffer⟩) := rfl
      rw [hrun, ChannelSink.write, StateT.run_bind, hdrain]
      exact hsend
    · rw [← String.append_assoc]
      exact h₁.write data
  | byte b =>
    by_cases hnewline : b = 10
    · subst hnewline
      have hrun : StateT.run (perform send (.byte 10)) (s, ⟨buffer⟩) =
          StateT.run (drain (perform.lifted send) perform.store ⟨buffer ++ [10]⟩)
            (s, ⟨buffer ++ [10]⟩) := rfl
      obtain ⟨s', text', cut, hdrain, hsends, h', -⟩ := drain_delivers ha hs (h.byte 10) hwhole
      exact ⟨s', text', ⟨cut⟩, hrun.trans hdrain, hsends, h', nofun⟩
    · refine ⟨s, "", ⟨buffer ++ [b]⟩, ?_, .refl hs, ?_, nofun⟩
      · have hrun : StateT.run (perform send (.byte b)) (s, ⟨buffer⟩) =
          StateT.run (if b == 10 then drain (perform.lifted send) perform.store ⟨buffer ++ [b]⟩
            else pure (.ok ())) (s, ⟨buffer ++ [b]⟩) := rfl
        rw [hrun, if_neg (by simpa using hnewline)]
        rfl
      · rw [String.append_empty]
        exact h.byte b
  | flush =>
    obtain ⟨s', text', cut, hdrain, hsends, h', hcut⟩ := drain_delivers ha hs h.flush hwhole
    exact ⟨s', text', ⟨cut⟩, hdrain, hsends, h', fun _ => hcut⟩

/-- Performs operations one after another. -/
def performAll (send : String → StateM σ (Except ChannelError Unit)) (ops : List SinkOp) :
    StateM (σ × ChannelSink) (List (Except StreamError Unit)) :=
  ops.mapM (perform send)

/-- All operations deliver what is given by them. -/
lemma performAll_delivers (hs : good s) {ops : List SinkOp} {more : List UInt8}
    (hwrites : Between isWrite ops) (hwhole : Whole (pushed ops ++ more)) :
    ∃ s' text sink', StateT.run (performAll send ops) (s, new) =
        (ops.map fun _ => .ok (), (s', sink')) ∧
      Sends sent good s s' text ∧ Delivered ops text sink'.buffer := by
  induction ops using List.reverseRecOn generalizing more with
  | nil => exact ⟨s, "", new, rfl, .refl hs, .start⟩
  | append_singleton ops op ih =>
    have hbefore : Whole (pushed ops ++ (pushed [op] ++ more)) := by
      rwa [← List.append_assoc, ← pushed_append]
    obtain ⟨s₁, text, sink, hrun, hsends, hdelivered⟩ := ih hwrites.of_append hbefore
    obtain ⟨s₂, text', sink', hrun', hsends', hdelivered', -⟩ :=
      perform_delivers ha hsends.1 op hdelivered (hwrites ops op [] rfl) hwhole
    refine ⟨s₂, text ++ text', sink', ?_, hsends.trans hsends', hdelivered'⟩
    rw [performAll, run_mapM_concat hrun hrun', List.map_append]
    rfl

/-- Nothing is left after a flush where a character is over. -/
lemma performAll_flush (hs : good s) {ops : List SinkOp} (hwrites : Between isWrite ops)
    (hwhole : Whole (pushed ops)) : ∃ s' text,
      StateT.run (performAll send (ops ++ [SinkOp.flush])) (s, new) =
        ((ops ++ [SinkOp.flush]).map fun _ => .ok (), (s', new)) ∧
      Sends sent good s s' text ∧ ofString text = given ops := by
  have hwhole' : Whole (pushed ops ++ []) := by rwa [List.append_nil]
  obtain ⟨s₁, text, sink, hrun, hsends, hdelivered⟩ := performAll_delivers ha hs hwrites hwhole'
  obtain ⟨s₂, text', ⟨pending⟩, hrun', hsends', hdelivered', hbegun⟩ :=
    perform_delivers ha hsends.1 .flush hdelivered nofun (by rwa [pushed_flush])
  obtain rfl : pending = [] := (hbegun rfl).eq_nil (hdelivered'.whole (by rwa [pushed_flush]))
  refine ⟨s₂, text ++ text', ?_, hsends.trans hsends', ?_⟩
  · rw [performAll, run_mapM_concat hrun hrun', List.map_append]
    rfl
  · have hgiven := hdelivered'.given
    rwa [List.append_nil, given_flush] at hgiven

end ChannelSink
end

/-! ## On a display and in memory -/

namespace SurfaceSink

/-- Performs an operation; the texts written. -/
def perform (op : SinkOp) : StateM SurfaceSink (List String) := fun s =>
  match op with
  | .write data => s.write data
  | .byte b => s.writeByte b
  | .flush => s.flush

/-- Performs operations one after another; the texts written by each. -/
def performAll (ops : List SinkOp) : StateM SurfaceSink (List (List String)) :=
  ops.mapM perform

lemma perform_delivers {ops : List SinkOp} {s : SurfaceSink} {text : String} {more : List UInt8}
    (op : SinkOp) (h : Delivered ops text s.pending) (hs : Begun s.pending)
    (hop : op.isByte = false → Whole (pushed ops)) (hwhole : Whole (pushed (ops ++ [op]) ++ more)) :
    ∃ texts s', StateT.run (perform op) s = (texts, s') ∧
      Delivered (ops ++ [op]) (text ++ String.join texts) s'.pending ∧ Begun s'.pending := by
  obtain ⟨pending⟩ := s
  cases op with
  | write data =>
    obtain rfl := hs.eq_nil (h.whole (hop rfl))
    refine ⟨[data], ⟨[]⟩, rfl, ?_, begun_nil⟩
    simpa using h.write data
  | byte b =>
    by_cases hb : Begun (pending ++ [b])
    · refine ⟨[], ⟨pending ++ [b]⟩, writeByte_of_begun hb, ?_, hb⟩
      simpa using h.byte b
    · have h' := h.byte b
      obtain ⟨ds, hds⟩ := h'.pushed
      rw [hds, List.append_assoc] at hwhole
      obtain ⟨c, hc⟩ := hs.concat_eq hwhole.of_append hb
      have hrun := writeByte_of_not_begun hs hb
      rw [hc, lossyText, decodeLossy_encode] at hrun
      refine ⟨[String.ofList [c]], ⟨[]⟩, hrun, ?_, begun_nil⟩
      have hsend : Delivered (ops ++ [.byte b]) text (encode [c] ++ []) := by
        rwa [List.append_nil, ← hc]
      simpa using hsend.send
  | flush =>
    obtain rfl := hs.eq_nil (h.whole (hop rfl))
    refine ⟨[], ⟨[]⟩, rfl, ?_, begun_nil⟩
    simpa using h.flush

lemma performAll_delivers {ops : List SinkOp} {more : List UInt8}
    (hbetween : Between (fun op => !op.isByte) ops) (hwhole : Whole (pushed ops ++ more)) :
    ∃ texts s', StateT.run (performAll ops) new = (texts, s') ∧
      Delivered ops (String.join texts.flatten) s'.pending ∧ Begun s'.pending := by
  induction ops using List.reverseRecOn generalizing more with
  | nil => exact ⟨[], new, rfl, .start, begun_nil⟩
  | append_singleton ops op ih =>
    have hbefore : Whole (pushed ops ++ (pushed [op] ++ more)) := by
      rwa [← List.append_assoc, ← pushed_append]
    obtain ⟨texts, s, hrun, hdelivered, hs⟩ := ih hbetween.of_append hbefore
    obtain ⟨texts', s', hrun', hdelivered', hs'⟩ := perform_delivers op hdelivered hs
      (fun hop => hbetween ops op [] rfl (by simpa using hop)) hwhole
    refine ⟨texts ++ [texts'], s', run_mapM_concat hrun hrun', ?_, hs'⟩
    simpa using hdelivered'

lemma performAll_flush {ops : List SinkOp} (hbetween : Between (fun op => !op.isByte) ops)
    (hwhole : Whole (pushed ops)) : ∃ texts,
      StateT.run (performAll (ops ++ [SinkOp.flush])) new = (texts, new) ∧
      ofString (String.join texts.flatten) = given ops := by
  have hwhole' : Whole (pushed ops ++ []) := by rwa [List.append_nil]
  obtain ⟨texts, s, hrun, hdelivered, hs⟩ := performAll_delivers hbetween hwhole'
  obtain ⟨texts', ⟨pending⟩, hrun', hdelivered', hs'⟩ :=
    perform_delivers .flush hdelivered hs (fun _ => hwhole) (by rwa [pushed_flush])
  obtain rfl : pending = [] := hs'.eq_nil (hdelivered'.whole (by rwa [pushed_flush]))
  refine ⟨texts ++ [texts'], run_mapM_concat hrun hrun', ?_⟩
  have hgiven := hdelivered'.given
  rw [List.append_nil, given_flush] at hgiven
  simpa using hgiven

end SurfaceSink

namespace MemorySink

/-- Performs an operation. -/
def perform (op : SinkOp) : StateM MemorySink (Except StreamError Unit) := fun s =>
  match op with
  | .write data => s.push (ofString data)
  | .byte b => s.push [b]
  | .flush => (s.flush, s)

/-- Performs operations one after another. -/
def performAll (ops : List SinkOp) : StateM MemorySink (List (Except StreamError Unit)) :=
  ops.mapM perform

/-- A buffer keeps all that is given. -/
lemma performAll_buffer (ops : List SinkOp) :
    StateT.run (performAll ops) (buffer []) = (ops.map fun _ => .ok (), buffer (given ops)) := by
  induction ops using List.reverseRecOn with
  | nil => rfl
  | append_singleton ops op ih =>
    have hop : StateT.run (perform op) (buffer (given ops)) =
        (.ok (), buffer (given (ops ++ [op]))) := by
      rw [given_append]
      cases op with
      | write data => simp [perform, push, given, StateT.run]
      | byte b => rfl
      | flush => simp [perform, flush, given, StateT.run]
    rw [performAll, run_mapM_concat ih hop, List.map_append]
    rfl

end MemorySink

/-- Where texts come between characters, all operations succeed and all that is given is sent in
order, at any moment but for what is pending, and with a flush at the end of a character nothing
is. Where flushes come between characters too, the other sinks put out the same text. -/
theorem ChannelSink.delivers {σ : Type} {send : String → StateM σ (Except ChannelError Unit)}
    {sent : σ → List String} {good : σ → Prop} (ha : Accepts send sent good) {s : σ} (hs : good s)
    {ops : List SinkOp} (hwrites : Between isWrite ops) (hwhole : Whole (pushed ops)) :
    ∃ s' text,
      StateT.run (performAll send (ops ++ [SinkOp.flush])) (s, new) =
        ((ops ++ [SinkOp.flush]).map fun _ => .ok (), (s', new)) ∧
      Sends sent good s s' text ∧ ofString text = given ops ∧
      (∀ before after, ops = before ++ after → ∃ s₁ text₁ sink,
        StateT.run (performAll send before) (s, new) = (before.map fun _ => .ok (), (s₁, sink)) ∧
        Sends sent good s s₁ text₁ ∧ ofString text₁ ++ sink.buffer = given before) ∧
      (Between (fun op => !op.isByte) ops →
        (∃ texts, StateT.run (SurfaceSink.performAll (ops ++ [SinkOp.flush])) .new = (texts, .new) ∧
          String.join texts.flatten = text) ∧
        ∃ sink, StateT.run (MemorySink.performAll (ops ++ [SinkOp.flush])) (.buffer []) =
            ((ops ++ [SinkOp.flush]).map fun _ => .ok (), sink) ∧
          sink.contents = text) := by
  obtain ⟨s', text, hrun, hsends, htext⟩ := performAll_flush ha hs hwrites hwhole
  refine ⟨s', text, hrun, hsends, htext, ?_, fun hbetween => ⟨?_, ?_⟩⟩
  · rintro before after rfl
    rw [pushed_append] at hwhole
    obtain ⟨s₁, text₁, sink, hrun₁, hsends₁, hdelivered⟩ :=
      performAll_delivers ha hs hwrites.of_append hwhole
    exact ⟨s₁, text₁, sink, hrun₁, hsends₁, hdelivered.given⟩
  · obtain ⟨texts, hrun', htexts⟩ := SurfaceSink.performAll_flush hbetween hwhole
    exact ⟨texts, hrun', ofString_injective (htexts.trans htext.symm)⟩
  · refine ⟨_, MemorySink.performAll_buffer _, ?_⟩
    rw [given_flush, ← htext, MemorySink.contents, lossyText, ofString_eq_encode,
      decodeLossy_encode, String.ofList_toList]

/-- A host whose script has no failures takes all that is sent. -/
lemma ScriptedHost.accepts (stream : Stream) : Accepts (ScriptedHost.api.write stream)
    (fun h => h.writes.map (·.2)) fun h => ∀ e, some (.error e) ∉ h.script := by
  have hnext (h : ScriptedHost) (hscript : ∀ e, some (.error e) ∉ h.script) (text : String) :
      ScriptedHost.api.write stream text h =
        (.ok (), { h with script := h.script.tail, writes := h.writes ++ [(stream, text)] }) := by
    obtain ⟨script, writes, notes, prompts⟩ := h
    rcases script with _ | ⟨_ | ⟨e | line⟩, rest⟩
    · rfl
    · rfl
    · exact absurd List.mem_cons_self (hscript e)
    · rfl
  constructor
  · intro h hscript text
    rw [hnext h hscript]
  · intro h hscript text e hmem
    rw [hnext h hscript] at hmem
    exact hscript e (List.mem_of_mem_tail hmem)
  · intro h hscript text
    rw [hnext h hscript]
    simp

/-- A character in two parts with a flush between them, and a text after it. -/
theorem ChannelSink.delivers_split_character :
    let ops : List SinkOp := [.byte 0xC3, .flush, .byte 0xA9, .byte 10, .write "ok"]
    Between isWrite ops ∧ Whole (pushed ops) ∧ ∃ host texts,
      StateT.run (performAll (ScriptedHost.api.write .stdout) (ops ++ [SinkOp.flush]))
          ((⟨[], [], [], []⟩ : ScriptedHost), new) =
        ((ops ++ [SinkOp.flush]).map fun _ => .ok (), (host, new)) ∧
      host.writes.map (·.2) = texts ∧ String.join texts = "é\nok" := by
  intro ops
  have hbytes : Between isWrite [.byte 0xC3, .flush, .byte 0xA9, .byte 10] :=
    ((((between_nil _).concat (by nofun)).concat (by nofun)).concat (by nofun)).concat (by nofun)
  have hchars : Whole (pushed [.byte 0xC3, .flush, .byte 0xA9, .byte 10]) :=
    ⟨['é', '\n'], by decide⟩
  have hwrites : Between isWrite ops := hbytes.concat fun _ => hchars
  obtain ⟨host, text, hrun, ⟨-, texts, hsent, hjoin⟩, htext, -⟩ :=
    ChannelSink.delivers (ScriptedHost.accepts .stdout) (s := ⟨[], [], [], []⟩) (by simp) hwrites
      hchars
  have hgiven : ofString "é\nok" = given ops := by decide
  exact ⟨hwrites, hchars, host, texts, hrun, hsent,
    hjoin.trans (ofString_injective (htext.trans hgiven.symm))⟩

end WorkerHost
