import WorkerHost.Json.Reader
/-!
Typed readers. A `Decoder` reads a type in two ways: straight from text, failing at the first
fault of either kind, and from a document that had to be held back because what says how to read it
came later. Unknown fields are skipped, repeated and missing ones are refused, a record may also be
written as the list of its fields, and a tagged value has its tag and content in either order.
-/

namespace WorkerHost.Json

open Reader

/-- Reads values of a type from text, where containers may nest so deep, and from documents. -/
structure Decoder (α : Type) where
  stream : Nat → Reader α
  buffered : Document → Option α

namespace Reader

/-- Skips the value that comes next, of whatever kind, then refuses it. -/
def mismatch {α : Type} : Reader α := do
  match ← peekToken with
  | none => failNext .eofInValue
  | some b =>
    if b == byte 'n' then do skip; literal ['u', 'l', 'l']; wrongShape
    else if b == byte 't' then do skip; literal ['r', 'u', 'e']; wrongShape
    else if b == byte 'f' then do skip; literal ['a', 'l', 's', 'e']; wrongShape
    else if b == byte '-' then do skip; let _ ← number true; wrongShape
    else if isDigit b then do let _ ← number false; wrongShape
    else if b == byte '"' then do skip; let _ ← string; wrongShape
    else if b == byte '[' || b == byte '\x7b' then wrongShape
    else failNext .expectedValue

/-! ## Skipping

A skipped value is looked at for its form only: numbers are not evaluated, strings are not decoded,
and containers may nest without limit. -/

/-- Digits, at least one. -/
def someDigits : Reader Unit := do
  let ds ← digits
  if ds.isEmpty then failNext .invalidNumber else pure ()

/-- Skips the exponent of a number, from its mark on. -/
def ignoredExponent : Reader Unit := do
  skip
  match ← peek with
  | some b => if b == byte '+' || b == byte '-' then skip else pure ()
  | none => pure ()
  match ← take with
  | some b => if isDigit b then do let _ ← digits; pure () else failHere .invalidNumber
  | none => failHere .invalidNumber

/-- Skips a number after its sign. -/
def ignoredNumber : Reader Unit := do
  match ← take with
  | some b =>
    if b == byte '0' then
      match ← peek with
      | some d => if isDigit d then failNext .invalidNumber else pure ()
      | none => pure ()
    else if isDigit b then do let _ ← digits; pure ()
    else failHere .invalidNumber
  | none => failHere .invalidNumber
  match ← peek with
  | some b => if b == byte '.' then do skip; someDigits else pure ()
  | none => pure ()
  match ← peek with
  | some b => if b == byte 'e' || b == byte 'E' then ignoredExponent else pure ()
  | none => pure ()

/-- A container that is being skipped. -/
inductive Open where
  | list
  | object
  deriving DecidableEq

def Open.close : Open → UInt8
  | .list => byte ']'
  | .object => byte '\x7d'

/-- Skips the key of a member and its colon. -/
def ignoredKey : Reader Unit := do
  match ← peekToken with
  | some b => if b == byte '"' then skip else failNext .keyMustBeString
  | none => failNext .eofInObject
  ignoredString
  colon

mutual

/-- Skips a value inside the containers of a stack. -/
def ignoredLoop : Nat → List Open → Reader Unit
  | 0, _ => failHere .eofInValue
  | fuel + 1, stack => do
    match ← peekToken with
    | none => failNext .eofInValue
    | some b =>
      if b == byte 'n' then do skip; literal ['u', 'l', 'l']; ignoredClose fuel true stack
      else if b == byte 't' then do skip; literal ['r', 'u', 'e']; ignoredClose fuel true stack
      else if b == byte 'f' then do skip; literal ['a', 'l', 's', 'e']; ignoredClose fuel true stack
      else if b == byte '-' then do skip; ignoredNumber; ignoredClose fuel true stack
      else if isDigit b then do ignoredNumber; ignoredClose fuel true stack
      else if b == byte '"' then do skip; ignoredString; ignoredClose fuel true stack
      else if b == byte '[' then do skip; ignoredClose fuel false (.list :: stack)
      else if b == byte '\x7b' then do skip; ignoredClose fuel false (.object :: stack)
      else failNext .expectedValue

/-- Closes containers while they end, then goes on to the next value. A comma is only allowed
after a value. -/
def ignoredClose : Nat → Bool → List Open → Reader Unit
  | _, _, [] => pure ()
  | 0, _, _ => failHere .eofInValue
  | fuel + 1, afterValue, top :: stack => do
    match ← peekToken with
    | none => failNext (if top = .list then .eofInList else .eofInObject)
    | some b =>
      if afterValue && b == byte ',' then do skip; ignoredNext fuel (top :: stack)
      else if b == top.close then do skip; ignoredClose fuel true stack
      else if afterValue then
        failNext (if top = .list then .expectedListCommaOrEnd else .expectedObjectCommaOrEnd)
      else ignoredNext fuel (top :: stack)

/-- The next item or member of the innermost container. -/
def ignoredNext : Nat → List Open → Reader Unit
  | 0, _ => failHere .eofInValue
  | fuel + 1, stack => do
    if stack.head? = some .object then ignoredKey
    ignoredLoop fuel stack

end

/-- Skips a value. -/
def ignored : Reader Unit := fun s =>
  ignoredLoop (3 * s.length + 3) [] s

end Reader

namespace Decoder
variable {α β γ : Type}

/-- Applies a function to what is read; `none` refuses it. -/
def mapOption (f : α → Option β) (d : Decoder α) : Decoder β where
  stream depth := do
    shaped (f (← d.stream depth))
  buffered doc := (d.buffered doc).bind f

def map (f : α → β) (d : Decoder α) : Decoder β :=
  d.mapOption (some ∘ f)

/-- Any document. -/
def any : Decoder Document where
  stream := document
  buffered := some

/-- The text `null`, read as a document whose kind is looked at afterwards. -/
def unit : Decoder Unit where
  stream depth := do
    match ← peekToken with
    | some b =>
      if b == byte '[' || b == byte '\x7b' then
        match depth with
        | 0 => failNext .recursionLimit
        | _ + 1 => wrongShape
      else if b == byte 'n' then do skip; literal ['u', 'l', 'l']
      else mismatch
    | none => failNext .eofInValue
  buffered
    | .null => some ()
    | _ => none

def bool : Decoder Bool where
  stream _ := do
    match ← peekToken with
    | some b =>
      if b == byte 't' then do skip; literal ['r', 'u', 'e']; pure true
      else if b == byte 'f' then do skip; literal ['a', 'l', 's', 'e']; pure false
      else mismatch
    | none => failNext .eofInValue
  buffered
    | .bool b => some b
    | _ => none

/-- A number of any form. -/
def number : Decoder Number where
  stream _ := do
    match ← peekToken with
    | some b =>
      if b == byte '-' then do skip; Reader.number true
      else if isDigit b then Reader.number false
      else mismatch
    | none => failNext .eofInValue
  buffered
    | .num n => some n
    | _ => none

/-- An integer with both ends of its range; a number written with a point or an exponent is none. -/
def integer (low high : Int) : Decoder Int :=
  number.mapOption fun
    | .int n => if low ≤ n ∧ n ≤ high then some n else none
    | .float _ => none

def int64 : Decoder Int64 :=
  (integer (-2 ^ 63) (2 ^ 63 - 1)).map Int64.ofInt

def uint64 : Decoder UInt64 :=
  (integer 0 (2 ^ 64 - 1)).map fun n => UInt64.ofNat n.toNat

def uint32 : Decoder UInt32 :=
  (integer 0 (2 ^ 32 - 1)).map fun n => UInt32.ofNat n.toNat

def uint8 : Decoder UInt8 :=
  (integer 0 255).map fun n => UInt8.ofNat n.toNat

def string : Decoder String where
  stream _ := do
    match ← peekToken with
    | some b => if b == byte '"' then do skip; Reader.string else mismatch
    | none => failNext .eofInValue
  buffered
    | .str s => some s
    | _ => none

/-- Opens a container one level deeper. -/
def descend (depth : Nat) (r : Nat → Reader α) : Reader α := do
  match depth with
  | 0 => failNext .recursionLimit
  | depth + 1 => do
    skip
    r depth

/-- A list of values of one type. -/
def list (d : Decoder α) : Decoder (List α) where
  stream depth := do
    match ← peekToken with
    | some b =>
      if b == byte '[' then descend depth fun depth => Reader.items (d.stream depth)
      else mismatch
    | none => failNext .eofInValue
  buffered
    | .arr items => items.mapM d.buffered
    | _ => none

/-- The next item of a list that has to have one. -/
def itemOf (first : Bool) (r : Reader α) : Reader α := do
  if ← hasItem first then r else wrongShape

/-- A list of two values. -/
def pair (d : Decoder α) (e : Decoder β) : Decoder (α × β) where
  stream depth := do
    match ← peekToken with
    | some b =>
      if b == byte '[' then
        descend depth fun depth => do
          let a ← itemOf true (d.stream depth)
          let b ← itemOf false (e.stream depth)
          endList
          return (a, b)
      else mismatch
    | none => failNext .eofInValue
  buffered
    | .arr [x, y] => do return (← d.buffered x, ← e.buffered y)
    | _ => none

/-! ## Records -/

/-- A field of a record: its key, how its value is read into the fields so far, whether it has been
read, and whether it may be absent. -/
structure Field (σ : Type) where
  key : String
  stream : Nat → σ → Reader σ
  buffered : Document → σ → Option σ
  present : σ → Bool
  optional : Bool

/-- A field read by a decoder. -/
def Field.of {σ : Type} (key : String) (d : Decoder α) (get : σ → Option α)
    (set : α → σ → σ) (optional : Bool) : Field σ where
  key := key
  stream depth s := do return set (← d.stream depth) s
  buffered doc s := (d.buffered doc).map fun a => set a s
  present s := (get s).isSome
  optional := optional

/-- One member of a record: a known field once, anything else skipped. -/
def recordMember {σ : Type} (fields : List (Field σ)) (depth : Nat) (s : σ) (key : String) :
    Reader σ := do
  match fields.find? (·.key == key) with
  | some f =>
    if f.present s then wrongShape
    else do
      colon
      f.stream depth s
  | none => do
    colon
    ignored
    return s

/-- A record written as the list of its fields. -/
def recordItems {σ : Type} (depth : Nat) : Bool → List (Field σ) → σ → Reader σ
  | _, [], s => do
    endList
    return s
  | first, f :: rest, s => do
    if ← hasItem first then recordItems depth false rest (← f.stream depth s)
    else if f.optional then recordItems depth first rest s
    else wrongShape

/-- The members of a buffered record. -/
def recordBuffered {σ : Type} (fields : List (Field σ)) : List (String × Document) → σ → Option σ
  | [], s => some s
  | (key, doc) :: rest, s =>
    match fields.find? (·.key == key) with
    | some f =>
      if f.present s then none else (f.buffered doc s).bind (recordBuffered fields rest)
    | none => recordBuffered fields rest s

/-- The fields of a buffered record written as a list. -/
def recordBufferedItems {σ : Type} : List (Field σ) → List Document → σ → Option σ
  | [], [], s => some s
  | [], _ :: _, _ => none
  | f :: rest, [], s => if f.optional then recordBufferedItems rest [] s else none
  | f :: rest, doc :: docs, s => (f.buffered doc s).bind (recordBufferedItems rest docs)

/-- The fields of a record, from either of its written forms. -/
def fields {σ : Type} (empty : σ) (fs : List (Field σ)) : Decoder σ where
  stream depth := do
    match ← peekToken with
    | some b =>
      if b == byte '[' then descend depth fun depth => recordItems depth true fs empty
      else if b == byte '\x7b' then
        descend depth fun depth => members empty (recordMember fs depth)
      else mismatch
    | none => failNext .eofInValue
  buffered
    | .arr docs => recordBufferedItems fs docs empty
    | .obj ms => recordBuffered fs ms empty
    | _ => none

/-- A record with one field. -/
def record₁ (k : String) (d : Decoder α) : Decoder α :=
  (fields (none : Option α) [.of k d id (fun a _ => some a) false]).mapOption id

/-- A record with two fields. -/
def record₂ (k₁ : String) (d₁ : Decoder α) (k₂ : String) (d₂ : Decoder β) : Decoder (α × β) :=
  (fields ((none, none) : Option α × Option β)
    [.of k₁ d₁ (·.1) (fun a s => (some a, s.2)) false,
      .of k₂ d₂ (·.2) (fun b s => (s.1, some b)) false]).mapOption
    fun (a, b) => do return (← a, ← b)

/-- A record with two fields, the second of which may be absent. -/
def recordOptional (k₁ : String) (d₁ : Decoder α) (k₂ : String) (d₂ : Decoder β) :
    Decoder (α × Option β) :=
  (fields ((none, none) : Option α × Option β)
    [.of k₁ d₁ (·.1) (fun a s => (some a, s.2)) false,
      .of k₂ d₂ (·.2) (fun b s => (s.1, some b)) true]).mapOption
    fun (a, b) => a.map fun a => (a, b)

/-- A record with three fields. -/
def record₃ (k₁ : String) (d₁ : Decoder α) (k₂ : String) (d₂ : Decoder β) (k₃ : String)
    (d₃ : Decoder γ) : Decoder (α × β × γ) :=
  (fields ((none, none, none) : Option α × Option β × Option γ)
    [.of k₁ d₁ (·.1) (fun a s => (some a, s.2)) false,
      .of k₂ d₂ (·.2.1) (fun b s => (s.1, some b, s.2.2)) false,
      .of k₃ d₃ (·.2.2) (fun c s => (s.1, s.2.1, some c)) false]).mapOption
    fun (a, b, c) => do return (← a, ← b, ← c)

/-! ## Tagged values -/

/-- One alternative of a tagged value: the decoder of its content, and its value if the content may
be absent. -/
structure Variant (α : Type) where
  content : Decoder α
  bare : Option α

/-- An alternative with content. -/
def Variant.with (d : Decoder β) (f : β → α) : Variant α :=
  ⟨d.map f, none⟩

/-- An alternative without content. -/
def Variant.alone (a : α) : Variant α :=
  ⟨unit.map fun _ => a, some a⟩

/-- The alternative a tag names. A tag is a string, or an object with it as the one key and null as
the value. -/
def tagStream (variants : String → Option (Variant α)) (depth : Nat) : Reader (Variant α) := do
  match ← peekToken with
  | none => failNext .eofInValue
  | some b =>
    if b == byte '"' then do
      skip
      named
    else if b == byte '\x7b' then
      descend depth fun _ => do
        let v ← (do
          match ← peekToken with
          | some b => if b == byte '"' then do skip; named else failNext .keyMustBeString
          | none => failNext .eofInValue)
        colon
        (do
          match ← peekToken with
          | some b => if b == byte 'n' then do skip; literal ['u', 'l', 'l'] else mismatch
          | none => failNext .eofInValue)
        match ← peekToken with
        | some b => if b == byte '\x7d' then skip else failNext .expectedValue
        | none => failNext .eofInObject
        return v
    else failNext .expectedValue
where
  /-- the alternative of the name that comes next -/
  named : Reader (Variant α) := do
    shaped (variants (← Reader.string))

/-- The alternative a buffered tag names. -/
def tagBuffered (variants : String → Option (Variant α)) : Document → Option (Variant α)
  | .str s => variants s
  | .obj [(s, .null)] | .obj [(s, .obj [])] => variants s
  | _ => none

/-- A value that is written as its name alone. -/
def enumeration (values : String → Option α) : Decoder α :=
  let variants := fun name => (values name).map Variant.alone
  { stream := fun depth => do
      shaped (← tagStream variants depth).bare
    buffered := fun doc => (tagBuffered variants doc).bind (·.bare) }

/-- What has been read of a tagged value. -/
inductive Tagged (α : Type) where
  | nothing
  | tag (v : Variant α)
  | content (d : Document)
  | both (a : α)

/-- The value at the end of a tagged value. -/
def Tagged.value? : Tagged α → Option α
  | .tag v => v.bare
  | .both a => some a
  | _ => none

/-- The alternatives of a tagged value by their names, in the order of their numbers. -/
abbrev Variants (α : Type) := List (String × Variant α)

/-- The tag at the front of a list, which is a string. -/
def itemTagStream (variants : Variants α) : Reader (Variant α) := do
  shaped (variants.lookup (← string.stream 0))

/-- The tag at the front of a buffered list: a name, or the number of an alternative. -/
def itemTagBuffered (variants : Variants α) : Document → Option (Variant α)
  | .str s => variants.lookup s
  | .num (.int n) => if 0 ≤ n then variants[n.toNat]?.map (·.2) else none
  | _ => none

/-- One member of a tagged value. Content that comes before its tag is held back. -/
def taggedMember (tagKey contentKey : String) (variants : String → Option (Variant α)) (depth : Nat)
    (s : Tagged α) (key : String) : Reader (Tagged α) := do
  if key == tagKey then
    match s with
    | .nothing => do
      colon
      return .tag (← tagStream variants depth)
    | .content doc => do
      colon
      let v ← tagStream variants depth
      return .both (← shaped (v.content.buffered doc))
    | _ => wrongShape
  else if key == contentKey then
    match s with
    | .nothing => do
      colon
      return .content (← document depth)
    | .tag v => do
      colon
      return .both (← v.content.stream depth)
    | _ => wrongShape
  else do
    colon
    ignored
    return s

/-- One member of a buffered tagged value. -/
def taggedMemberBuffered (tagKey contentKey : String) (variants : String → Option (Variant α))
    (s : Tagged α) (m : String × Document) : Option (Tagged α) :=
  if m.1 == tagKey then
    match s with
    | .nothing => (tagBuffered variants m.2).map .tag
    | .content doc => do
      let v ← tagBuffered variants m.2
      return .both (← v.content.buffered doc)
    | _ => none
  else if m.1 == contentKey then
    match s with
    | .nothing => some (.content m.2)
    | .tag v => (v.content.buffered m.2).map .both
    | _ => none
  else some s

/-- A value written as an object with a tag and a content, or as the list of the two. -/
def tagged (tagKey contentKey : String) (variants : Variants α) : Decoder α where
  stream depth := do
    match ← peekToken with
    | some b =>
      if b == byte '[' then
        descend depth fun depth => do
          let v ← itemOf true (itemTagStream variants)
          let a ← itemOf false (v.content.stream depth)
          endList
          return a
      else if b == byte '\x7b' then
        descend depth fun depth => do
          let step := taggedMember tagKey contentKey (variants.lookup ·) depth
          shaped (← members .nothing step).value?
      else mismatch
    | none => failNext .eofInValue
  buffered
    | .arr [t, c] => do
      let v ← itemTagBuffered variants t
      v.content.buffered c
    | .obj ms => do
      let s ← ms.foldlM (taggedMemberBuffered tagKey contentKey (variants.lookup ·)) Tagged.nothing
      s.value?
    | _ => none

/-- A value written as an object one of whose members is its tag; the members are held back until
the end. -/
def internallyTagged (tagKey : String) (variants : String → Option (Decoder α)) : Decoder α where
  stream depth := do
    match ← peekToken with
    | some b =>
      if b == byte '[' then
        descend depth fun depth => do
          let d ← itemOf true (plainTag)
          let rest ← itemsLoop (document depth) ((← get).length + 1) false []
          held d (.arr rest.reverse)
      else if b == byte '\x7b' then
        descend depth fun depth => do
          let (d, ms) ← members ((none, []) : Option (Decoder α) × List (String × Document))
            fun (d, ms) key => do
              if key == tagKey then
                match d with
                | some _ => wrongShape
                | none => do
                  colon
                  return (some (← plainTag), ms)
              else do
                colon
                return (d, (key, ← document depth) :: ms)
          match d with
          | some d => held d (.obj ms.reverse)
          | none => wrongShape
      else do
        let _ ← document depth
        wrongShape
    | none => failNext .eofInValue
  buffered _ := none
where
  /-- the decoder of the alternative that is named next -/
  plainTag : Reader (Decoder α) := do
    shaped (variants (← Decoder.string.stream 0))
  /-- the members that were held back -/
  held (d : Decoder α) (doc : Document) : Reader α :=
    shaped (d.buffered doc)

/-- Reads all of a text. -/
def readAll (d : Decoder α) (text : List UInt8) : Except Fault α :=
  Reader.readAll (d.stream maxDepth) text

end Decoder
end WorkerHost.Json
