import WorkerHost.Value.Heap
import WorkerHost.Wire.Basic
/-!
Decoding a wire form. Every table entry becomes an object of its own before any of them is filled,
so references in both directions and to an object itself come out as one shared object.
-/

namespace WorkerHost.Wire

/-- The value of a slot, where the table of so many entries begins at a place of the heap. -/
def resolve (base count : Nat) : Slot → Except CodecError Value
  | .null => .ok .null
  | .bool b => .ok (.bool b)
  | .int n => .ok (.int n)
  | .float x => .ok (.float x)
  | .str s => .ok (.str s)
  | .bytes bs => .ok (.bytes bs)
  | .view bs => .ok (.view bs)
  | .handle h => .ok (.handle h)
  | .ref id =>
    if id.toNat < count then .ok (.object (base + id.toNat)) else .error (.danglingRef id)

/-- The object of a table entry; the last entry for a key of a map wins. -/
def object (base count : Nat) : WireObject → Except CodecError Object
  | .list slots => do return .list (← slots.mapM (resolve base count))
  | .map entries => do
    let es ← entries.mapM fun (k, s) => do return (k, ← resolve base count s)
    return .map (Dict.ofList es)

/-- The value of a wire form, with fresh objects. A failure leaves the heap as it was. -/
def decode (h : Heap) (w : Wire) : Except CodecError (Value × Heap) := do
  let base := h.size
  let count := w.objects.length
  let objects ← w.objects.mapM (object base count)
  let root ← resolve base count w.root
  return (root, { h with objects := h.objects ++ objects.toArray })

/-- The value of a JSON text. -/
def decodeJson (h : Heap) (text : List UInt8) : Except CodecError (Value × Heap) := do
  decode h (← read text)

end WorkerHost.Wire
