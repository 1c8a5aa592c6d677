import WorkerHost.Channel.Message
import WorkerHost.Proofs.Wire.Text

/-!
# The text of a message

A message has its type among its other members, so they are held back as documents and read from
there. `Message.read_write`: the text of a message is read back as that message, with the quiet NaN
in the place of any other.
-/

namespace WorkerHost

open Json Json.Decoder Json.Document

namespace Target

lemma reads (t : Target) : decoder.Reads 1 t.document t := by
  cases t with
  | method name =>
    exact Reads.tagged (by decide) rfl ((Reads.string (n := 0) name).map Target.method)
  | handle k =>
    have hid := (Reads.uint64 (n := 0) k.id).map fun n => Target.handle ⟨n⟩
    exact Reads.tagged (by decide) rfl hid

lemma nested {P : Number → Prop} (hP : IntegersAre P) (t : Target) : t.document.Nested P 1 := by
  cases t with
  | method name => exact nested_tagged_some "kind" "method" "name" (.str 0 name)
  | handle k => exact nested_tagged_some "kind" "handle" "name" (hP.nat k.id.toNat_lt 0)

end Target

namespace RemoteError

lemma reads (e : RemoteError) : decoder.Reads 1 e.document e :=
  (Reads.record₂ (n := 0) (by decide) (Reads.string e.kind) (Reads.string e.message)).map
    fun p => (⟨p.1, p.2⟩ : RemoteError)

lemma nested {P : Number → Prop} (e : RemoteError) : e.document.Nested P 1 := by
  refine .obj fun m hm => ?_
  rcases List.mem_pair.1 hm with rfl | rfl
  · exact .str 0 e.kind
  · exact .str 0 e.message

end RemoteError

namespace Message

/-- The wire form that a message carries. -/
def wire? : Message → Option Wire
  | .call _ _ args => some args
  | .reply _ value => some value
  | .fail _ _ => none

/-- The message with the quiet NaN in the place of any other. -/
def quiet : Message → Message
  | .call id target args => .call id target args.quiet
  | .reply id value => .reply id value.quiet
  | .fail id error => .fail id error

/-- Every float of the message is read back from its text. -/
def ReadsBack (m : Message) : Prop :=
  ∀ w, m.wire? = some w → w.ReadsBack

/-- The members of a message beside its type. -/
def members : Message → List (String × Document)
  | .call id target args =>
    [("id", .num (.int id.id.toNat)), ("target", target.document), ("args", args.document)]
  | .reply id value => [("id", .num (.int id.id.toNat)), ("value", value.document)]
  | .fail id error => [("id", .num (.int id.id.toNat)), ("error", error.document)]

/-- The type of a message. -/
def type : Message → String
  | .call .. => "call"
  | .reply .. => "reply"
  | .fail .. => "fail"

lemma document_eq (m : Message) : m.document = .obj (("type", .str m.type) :: m.members) := by
  cases m <;> rfl

lemma members_ne_type (m : Message) : ∀ p ∈ m.members, p.1 ≠ "type" := by
  cases m <;> simp [members]

/-- The members of a message nest as its wire form does. -/
lemma nested_members {P : Number → Prop} (hP : IntegersAre P) {m : Message}
    (hfloats : ∀ w, m.wire? = some w → w.FloatsAre P) : ∀ p ∈ m.members, p.2.Nested P 7 := by
  have hid := fun id : CallId => hP.nat id.id.toNat_lt 7
  cases m with
  | call id target args =>
    simp only [members, List.forall_mem_cons]
    exact ⟨hid id, (target.nested hP).mono (by decide), Wire.nested hP (hfloats args rfl), by simp⟩
  | reply id value =>
    simp only [members, List.forall_mem_cons]
    exact ⟨hid id, Wire.nested hP (hfloats value rfl), by simp⟩
  | fail id error =>
    simp only [members, List.forall_mem_cons]
    exact ⟨hid id, error.nested.mono (by decide), by simp⟩

/-- The text of a message nests eight deep at most. -/
lemma nested {P : Number → Prop} (hP : IntegersAre P) {m : Message}
    (hfloats : ∀ w, m.wire? = some w → w.FloatsAre P) : m.document.Nested P 8 := by
  rw [document_eq]
  refine .obj (List.forall_mem_cons.2 ⟨.str 7 m.type, nested_members hP hfloats⟩)

/-- The decoder that the type of a message chooses takes its other members. -/
lemma exists_variant {m : Message} (hm : m.ReadsBack) :
    ∃ d, variant m.type = some d ∧ d.buffered (.obj m.members) = some m.quiet := by
  cases m with
  | call id target args =>
    have hkeys : "id" ≠ "target" ∧ "id" ≠ "args" ∧ "target" ≠ "args" := by decide
    have h := (Reads.record₃ hkeys (Reads.uint64 id.id) (target.reads.mono (by decide))
      (Wire.reads (hm args rfl))).map fun p => Message.call ⟨p.1⟩ p.2.1 p.2.2
    exact ⟨_, rfl, h.buffered⟩
  | reply id value =>
    have hkeys : "id" ≠ "value" := by decide
    have h := (Reads.record₂ hkeys (Reads.uint64 id.id) (Wire.reads (hm value rfl))).map
      fun p => Message.reply ⟨p.1⟩ p.2
    exact ⟨_, rfl, h.buffered⟩
  | fail id error =>
    have hkeys : "id" ≠ "error" := by decide
    have h := (Reads.record₂ hkeys (Reads.uint64 id.id) error.reads).map
      fun p => Message.fail ⟨p.1⟩ p.2
    exact ⟨_, rfl, h.buffered⟩

/-- The text of a message is read back as the message. -/
theorem read_write {m : Message} (hm : m.ReadsBack) : read m.write = .ok m.quiet := by
  obtain ⟨d, hvariant, hbuffered⟩ := exists_variant hm
  have hnested := nested_members integersAre_numeral fun w hw => (hm w hw).floatsAre
  rw [read, write, document_eq]
  exact (internallyTagged_takes hvariant m.members_ne_type hnested hbuffered (by decide)).readAll

end Message
end WorkerHost
