import Mathlib
import WorkerHost.Config.Source
import WorkerHost.Proofs.Json.Integers
import WorkerHost.Proofs.Wire.Tree

/-!
# The value of a JSON document

A document becomes a value from below: the parts of an array or object get their objects first. So
the objects of two parts are apart, and the object that holds the parts is apart from theirs.
`Heap.Plants` is what such a heap is after some branches have grown; it passes from branch to
branch, and to the object that is made to hold them.

* `Heap.plants_ofJson`: the value of a document is a tree of fresh objects, and what it is as a
  document is `Document.tidy`, the one with sorted members;
* `Heap.ofJson_unshared`: what that says about sharing, about the wire form and about
  configurations.
-/

namespace WorkerHost

open Json

namespace Json

/-- A number as a value keeps it: an integer of 64 bits with sign exactly, another one as a float.
-/
def Number.narrow : Number → Number
  | .int n => if -2 ^ 63 ≤ n ∧ n < 2 ^ 63 then .int n else .float (Binary64.ofInt n)
  | .float x => .float x

namespace Document

mutual

/-- The document with the last member for every key only, members in the order of the keys, and
integers beyond 64 bits with sign as floats. -/
def tidy : Document → Document
  | .null => .null
  | .bool b => .bool b
  | .num x => .num x.narrow
  | .str s => .str s
  | .arr items => .arr (tidyItems items)
  | .obj members =>
    .obj ((Dict.lastEntries (tidyMembers members)).mergeSort fun a b => a.1 ≤ b.1)

def tidyItems : List Document → List Document
  | [] => []
  | d :: rest => d.tidy :: tidyItems rest

def tidyMembers : List (String × Document) → List (String × Document)
  | [] => []
  | (k, d) :: rest => (k, d.tidy) :: tidyMembers rest

end

lemma tidy_obj (members : List (String × Document)) :
    (Document.obj members).tidy = .obj (Dict.ofList (tidyMembers members)).entries := by
  rw [tidy, Dict.entries_ofList_eq_mergeSort]

end Document
end Json

namespace Heap
variable {h h' h'' : Heap} {v : Value} {d : Document} {n : ℕ} {bs cs : List Branch}

lemma Grows.trans (hg : h.Grows h') (hg' : h'.Grows h'') : h.Grows h'' :=
  ⟨hg.size_le.trans hg'.size_le, fun r hr =>
    (hg'.read_eq r (hr.trans_le hg.size_le)).trans (hg.read_eq r hr)⟩

mutual

/-- Whatever the document, what was in the heap stays. -/
lemma grows_ofJson (h : Heap) : ∀ d : Document, h.Grows (h.ofJson d).2
  | .null => .refl h
  | .bool _ => .refl h
  | .num (.int _) => .refl h
  | .num (.float _) => .refl h
  | .str _ => .refl h
  | .arr items => (h.grows_ofJsonItems items).trans (grows_alloc _ _)
  | .obj members => (h.grows_ofJsonMembers members).trans (grows_alloc _ _)

lemma grows_ofJsonItems (h : Heap) : ∀ items : List Document, h.Grows (h.ofJsonItems items).2
  | [] => .refl h
  | d :: rest => (h.grows_ofJson d).trans (grows_ofJsonItems _ rest)

lemma grows_ofJsonMembers (h : Heap) :
    ∀ members : List (String × Document), h.Grows (h.ofJsonMembers members).2
  | [] => .refl h
  | (_, d) :: rest => (h.grows_ofJson d).trans (grows_ofJsonMembers _ rest)

end

/-- The heap has the branches as well, each of them a tree of new objects, apart from the others. -/
structure Plants (h : Heap) (bs : List Branch) (h' : Heap) : Prop extends Grows h h' where
  functions_eq : h'.functions = h.functions
  closed : h.Closed → h'.Closed
  unfolds : ∀ b ∈ bs, h'.Unfolds b.value b.document b.objects
  nodup : (bs.flatMap (·.objects)).Nodup
  fresh : ∀ b ∈ bs, ∀ r ∈ b.objects, h.size ≤ r ∧ r < h'.size

namespace Plants

lemma nil (h : Heap) : Plants h [] h where
  toGrows := .refl h
  functions_eq := rfl
  closed := id
  unfolds := nofun
  nodup := .nil
  fresh := nofun

/-- A value without parts needs no object. -/
lemma scalar (h : Heap) (hv : v.scalar? = some d) : Plants h [⟨v, d, []⟩] h where
  toGrows := .refl h
  functions_eq := rfl
  closed := id
  unfolds := by simpa using Unfolds.scalar hv
  nodup := by simp
  fresh := by simp

/-- Branches that grow after others are apart from them. -/
lemma append (hp : Plants h bs h') (hp' : Plants h' cs h'') : Plants h (bs ++ cs) h'' where
  toGrows := hp.toGrows.trans hp'.toGrows
  functions_eq := hp'.functions_eq.trans hp.functions_eq
  closed := hp'.closed ∘ hp.closed
  unfolds b hb := by
    rcases List.mem_append.1 hb with hb | hb
    · exact (hp.unfolds b hb).congr fun r hr => hp'.read_eq r (hp.fresh b hb r hr).2
    · exact hp'.unfolds b hb
  nodup := by
    rw [List.flatMap_append]
    refine List.nodup_append.2 ⟨hp.nodup, hp'.nodup, fun r hr s hs heq => ?_⟩
    obtain ⟨b, hb, hrb⟩ := List.mem_flatMap.1 hr
    obtain ⟨c, hc, hsc⟩ := List.mem_flatMap.1 hs
    have hlt := (hp.fresh b hb r hrb).2
    have hge := (hp'.fresh c hc s hsc).1
    omega
  fresh b hb r hr := by
    rcases List.mem_append.1 hb with hb | hb
    · exact ⟨(hp.fresh b hb r hr).1, (hp.fresh b hb r hr).2.trans_le hp'.size_le⟩
    · exact ⟨hp.size_le.trans (hp'.fresh b hb r hr).1, (hp'.fresh b hb r hr).2⟩

/-- Of the branches, some may be taken, in any order. -/
lemma mono (hp : Plants h bs h') (hsub : cs.Subperm bs) : Plants h cs h' where
  toGrows := hp.toGrows
  functions_eq := hp.functions_eq
  closed := hp.closed
  unfolds b hb := hp.unfolds b (hsub.subset hb)
  nodup := by
    obtain ⟨es, hperm, hsublist⟩ := hsub
    exact (hperm.flatMap_right _).nodup_iff.1 (hp.nodup.sublist (hsublist.flatMap _))
  fresh b hb := hp.fresh b (hsub.subset hb)

/-- A new object may hold the branches. -/
lemma alloc (hp : Plants h bs h') {o : Object} (ho : o.children = bs.map (·.value))
    (hd : (h'.alloc o).2.Unfolds (.object h'.size) d (h'.size :: bs.flatMap (·.objects))) :
    Plants h [⟨.object h'.size, d, h'.size :: bs.flatMap (·.objects)⟩] (h'.alloc o).2 where
  toGrows := hp.toGrows.trans (h'.grows_alloc o)
  functions_eq := hp.functions_eq
  closed hh := by
    refine (hp.closed hh).alloc fun w hw r heq => ?_
    rw [ho] at hw
    obtain ⟨b, hb, rfl⟩ := List.mem_map.1 hw
    have hroot : r ∈ b.objects := Unfolds.mem_root (heq ▸ hp.unfolds b hb)
    exact (hp.fresh b hb r hroot).2
  unfolds := by simpa using hd
  nodup := by
    rw [List.flatMap_singleton]
    refine List.nodup_cons.2 ⟨fun hmem => ?_, hp.nodup⟩
    obtain ⟨b, hb, hr⟩ := List.mem_flatMap.1 hmem
    exact (hp.fresh b hb _ hr).2.false
  fresh b hb r hr := by
    have hsize : (h'.alloc o).2.size = h'.size + 1 := by simp [Heap.alloc, size]
    rw [List.mem_singleton.1 hb] at hr
    rw [hsize]
    rcases List.mem_cons.1 hr with rfl | hr
    · exact ⟨hp.size_le, Nat.lt_succ_self _⟩
    · obtain ⟨c, hc, hrc⟩ := List.mem_flatMap.1 hr
      exact ⟨(hp.fresh c hc r hrc).1, (hp.fresh c hc r hrc).2.trans (Nat.lt_succ_self _)⟩

/-- After an allocation the branches are as they were. -/
lemma unfolds_alloc (hp : Plants h bs h') (o : Object) :
    ∀ b ∈ bs, (h'.alloc o).2.Unfolds b.value b.document b.objects :=
  fun b hb => (hp.unfolds b hb).congr fun r hr =>
    (h'.grows_alloc o).read_eq r (hp.fresh b hb r hr).2

/-- A new list holds the branches. -/
lemma newList (hp : Plants h bs h') :
    Plants h [⟨.object h'.size, .arr (bs.map (·.document)), h'.size :: bs.flatMap (·.objects)⟩]
      (h'.newList (bs.map (·.value))).2 :=
  hp.alloc rfl (.list (h'.read_alloc_self _) (hp.unfolds_alloc _))

/-- A new map holds the last branch for every key. -/
lemma newMap {es : List (String × Branch)} (hp : Plants h (es.map (·.2)) h') :
    ∃ rs, Plants h [⟨.object h'.size,
        .obj (Dict.ofList (es.map fun e => (e.1, e.2.document))).entries, rs⟩]
      (h'.newMap (es.map fun e => (e.1, e.2.value))).2 := by
  have hsub : (Dict.ofList es).values.Subperm (es.map (·.2)) :=
    ((Dict.perm_entries_ofList es).map _).subperm.trans
      ((Dict.lastEntries_sublist es).map _).subperm
  have hlast := hp.mono hsub
  rw [Heap.newMap, Dict.ofList_map, Dict.ofList_map]
  exact ⟨_, hlast.alloc (Dict.values_map _ _)
    (.map (h'.read_alloc_self _) (hlast.unfolds_alloc _))⟩

end Plants

/-! ## Documents -/

/-- The value of a document is a tree of new objects. -/
def Sprouts (d : Document) : Prop :=
  ∀ h : Heap, ∃ rs, Plants h [⟨(h.ofJson d).1, d.tidy, rs⟩] (h.ofJson d).2

lemma sprouts_num {x : Number} (hx : x.InRange) : Sprouts (.num x) := by
  intro h
  refine ⟨[], ?_⟩
  cases x with
  | float x => exact .scalar h rfl
  | int n =>
    obtain ⟨hlow, -⟩ : -2 ^ 63 ≤ n ∧ n < 2 ^ 64 := hx
    by_cases hhigh : n < 2 ^ 63
    · have hvalue : (h.ofJson (.num (.int n))).1 = .int (Int64.ofInt n) := by
        rw [ofJson, if_pos hhigh]
      have hdocument : (Document.num (.int n)).tidy = .num (.int n) := by
        rw [Document.tidy, Number.narrow, if_pos ⟨hlow, hhigh⟩]
      rw [hvalue, hdocument]
      refine .scalar h ?_
      rw [Value.scalar?, Int64.toInt_ofInt_of_le hlow hhigh]
    · have hvalue : (h.ofJson (.num (.int n))).1 = .float (Binary64.ofInt n) := by
        rw [ofJson, if_neg hhigh]
      have hdocument : (Document.num (.int n)).tidy = .num (.float (Binary64.ofInt n)) := by
        rw [Document.tidy, Number.narrow, if_neg fun hn => hhigh hn.2]
      rw [hvalue, hdocument]
      exact .scalar h rfl

lemma plants_ofJsonItems {items : List Document} (hitems : ∀ d ∈ items, Sprouts d) (h : Heap) :
    ∃ bs : List Branch, (h.ofJsonItems items).1 = bs.map (·.value) ∧
      Document.tidyItems items = bs.map (·.document) ∧ Plants h bs (h.ofJsonItems items).2 := by
  induction items generalizing h with
  | nil => exact ⟨[], rfl, rfl, .nil h⟩
  | cons d items ih =>
    obtain ⟨rs, hd⟩ := hitems d List.mem_cons_self h
    obtain ⟨bs, hvalues, hdocuments, hbs⟩ :=
      ih (fun e he => hitems e (List.mem_cons_of_mem _ he)) (h.ofJson d).2
    exact ⟨_ :: bs, congrArg _ hvalues, congrArg _ hdocuments, hd.append hbs⟩

lemma plants_ofJsonMembers {members : List (String × Document)}
    (hmembers : ∀ m ∈ members, Sprouts m.2) (h : Heap) :
    ∃ es : List (String × Branch),
      (h.ofJsonMembers members).1 = es.map (fun e => (e.1, e.2.value)) ∧
      Document.tidyMembers members = es.map (fun e => (e.1, e.2.document)) ∧
      Plants h (es.map (·.2)) (h.ofJsonMembers members).2 := by
  induction members generalizing h with
  | nil => exact ⟨[], rfl, rfl, .nil h⟩
  | cons m members ih =>
    obtain ⟨rs, hm⟩ := hmembers m List.mem_cons_self h
    obtain ⟨es, hvalues, hdocuments, hes⟩ :=
      ih (fun e he => hmembers e (List.mem_cons_of_mem _ he)) (h.ofJson m.2).2
    exact ⟨(m.1, _) :: es, congrArg _ hvalues, congrArg _ hdocuments, hm.append hes⟩

/-- The value of a document is a tree of new objects, and the document with its members sorted. -/
theorem plants_ofJson (hd : d.Nested Number.InRange n) : Sprouts d := by
  induction hd with
  | null => exact fun h => ⟨[], .scalar h rfl⟩
  | bool => exact fun h => ⟨[], .scalar h rfl⟩
  | str => exact fun h => ⟨[], .scalar h rfl⟩
  | num _ hx => exact sprouts_num hx
  | @arr _ items _ ih =>
    intro h
    obtain ⟨bs, hvalues, hdocuments, hbs⟩ := plants_ofJsonItems ih h
    rw [Document.tidy, hdocuments, ofJson]
    simp only [hvalues]
    exact ⟨_, hbs.newList⟩
  | @obj _ members _ ih =>
    intro h
    obtain ⟨es, hvalues, hdocuments, hes⟩ := plants_ofJsonMembers ih h
    rw [Document.tidy_obj, hdocuments, ofJson]
    simp only [hvalues]
    exact hes.newMap

/-! ## Unshared trees -/

/-- The value is the document as a tree of its own. Its objects are `rs`, one for every array and
object of the document, in depth-first order. -/
structure UnsharedTree (h h' : Heap) (v : Value) (d : Document) (rs : List ℕ) : Prop where
  /-- what was in the heap is as it was, and cannot be reached from the value -/
  adds : h.Adds v h'
  apart : h.Closed → ∀ u, h.Allocated u → ¬ h'.Shares u v
  new : ∀ r ∈ rs, h.size ≤ r ∧ r < h'.size
  /-- read back, the value is the document with sorted members, and no other one -/
  unfolds_iff : ∀ d' rs', h'.Unfolds v d' rs' ↔ d' = d.tidy ∧ rs' = rs
  nodup : rs.Nodup
  mem_iff : ∀ r, r ∈ rs ↔ r ∈ h'.objectsFrom v
  /-- the objects hold each other once, but for the root, which none of them holds -/
  held : ∀ r ∈ rs, (rs.flatMap h'.next).count r = if v = .object r then 0 else 1
  acyclic : ∀ r ∈ rs, ∀ w ∈ (h'.read r).children, r ∉ h'.objectsFrom w
  /-- the wire form is the one of the document, with an entry for every container -/
  encode : Wire.encode h' v = .ok ⟨(d.tidy.wire 0).1, (d.tidy.wire 0).2⟩
  length_table : (d.tidy.wire 0).2.length = rs.length

/-- In a tree every object but the root is held once. -/
lemma Unfolds.count_next {rs : List ℕ} (hu : h.Unfolds v d rs) (hnodup : rs.Nodup) {r : ℕ}
    (hr : r ∈ rs) : (rs.flatMap h.next).count r = if v = .object r then 0 else 1 := by
  have hcount := hu.perm_references.count_eq r
  rw [List.count_append, List.count_eq_one_of_mem hnodup hr] at hcount
  split
  · next hroot =>
    rw [hroot] at hcount
    simpa [Value.ref?] using hcount
  · next hroot =>
    have hnone : v.ref?.toList.count r = 0 := by
      refine List.count_eq_zero.2 fun hmem => hroot ?_
      exact Value.ref?_eq_some_iff.1 (Option.mem_toList.1 hmem)
    omega

lemma Plants.unsharedTree {rs : List ℕ} (hp : Plants h [⟨v, d.tidy, rs⟩] h') :
    UnsharedTree h h' v d rs := by
  have hu : h'.Unfolds v d.tidy rs := hp.unfolds _ List.mem_cons_self
  have hnodup : rs.Nodup := by simpa using hp.nodup
  have hfresh : ∀ r ∈ rs, h.size ≤ r ∧ r < h'.size := hp.fresh _ List.mem_cons_self
  have hmem (r : ℕ) : r ∈ rs ↔ r ∈ h'.objectsFrom v := by
    rw [hu.objectsFrom_eq]
    rfl
  have hadds : h.Adds v h' :=
    { toGrows := hp.toGrows
      closed := hp.closed
      allocated := fun r hr => (hfresh r (Unfolds.mem_root (hr ▸ hu))).2
      fresh := fun r hr => (hfresh r ((hmem r).2 hr)).1 }
  exact
    { adds := hadds
      apart := fun hh u => hadds.not_shares hh
      new := hfresh
      unfolds_iff := fun d' rs' =>
        ⟨fun hu' => hu'.unique hu, fun heq => by rw [heq.1, heq.2]; exact hu⟩
      nodup := hnodup
      mem_iff := hmem
      held := fun r hr => hu.count_next hnodup hr
      acyclic := fun r hr w hw => hu.not_mem_objectsFrom_child hnodup hr hw
      encode := hu.encode hnodup
      length_table := hu.length_wire hnodup }

lemma read_of_readConfig {text : String} (hconfig : readConfig .json text = .ok d) :
    Document.read (Text.Utf8.ofString text) = .ok d := by
  unfold readConfig at hconfig
  dsimp only at hconfig
  cases hread : Document.read (Text.Utf8.ofString text) with
  | error e =>
    rw [hread] at hconfig
    cases hconfig
  | ok d' =>
    rw [hread] at hconfig
    cases d' <;> cases hconfig
    rfl

/-- What JSON becomes is an unshared tree: for every document, for every document that is read from
a text, and so for every configuration. -/
theorem ofJson_unshared :
    (∀ (h : Heap) (d : Document) (n : ℕ), d.Nested Number.InRange n →
      ∃ rs, UnsharedTree h (h.ofJson d).2 (h.ofJson d).1 d rs) ∧
    (∀ (text : List UInt8) (d : Document), Document.read text = .ok d →
      d.Nested Number.InRange Reader.maxDepth) ∧
    (∀ (h : Heap) (text : String) (url : Option String) (v : Value) (h' : Heap),
      parseConfig h text .json url = .ok (v, h') →
      ∃ d rs, Document.read (Text.Utf8.ofString text) = .ok d ∧ UnsharedTree h h' v d rs) := by
  have htree (h : Heap) (d : Document) (n : ℕ) (hd : d.Nested Number.InRange n) :
      ∃ rs, UnsharedTree h (h.ofJson d).2 (h.ofJson d).1 d rs := by
    obtain ⟨rs, hp⟩ := plants_ofJson hd h
    exact ⟨rs, hp.unsharedTree⟩
  refine ⟨htree, fun text d => Document.nested_of_read, fun h text url v h' hparse => ?_⟩
  unfold parseConfig at hparse
  split at hparse
  · next d hconfig =>
    have hread := read_of_readConfig hconfig
    obtain ⟨rs, hrs⟩ := htree h d _ (Document.nested_of_read hread)
    rw [Except.ok.inj hparse] at hrs
    exact ⟨d, rs, hread, hrs⟩
  · cases hparse

/-- A text that repeats a key and has an integer beyond 64 bits with sign. -/
def repeatingText : String :=
  "\x7b\"b\":[1],\"a\":9223372036854775808,\"b\":[\x7b\"c\":null\x7d]\x7d"

/-- What it says. -/
def repeating : Document :=
  .obj [("b", .arr [.num (.int 1)]), ("a", .num (.int (2 ^ 63))),
    ("b", .arr [.obj [("c", .null)]])]

/-- The same with the last member for the key only, members in order and the integer as a float. -/
def repeated : Document :=
  .obj [("a", .num (.float (.ofInt (2 ^ 63)))), ("b", .arr [.obj [("c", .null)]])]

lemma read_repeatingText : Document.read (Text.Utf8.ofString repeatingText) = .ok repeating := by
  cbv

lemma tidy_repeating : repeating.tidy = repeated := by
  have hwide : (Number.int (2 ^ 63)).narrow = .float (.ofInt (2 ^ 63)) := by
    norm_num [Number.narrow]
  have hinner : (Document.obj [("c", .null)]).tidy = .obj [("c", .null)] := by
    rw [Document.tidy_obj]
    rfl
  rw [repeating, repeated, Document.tidy_obj]
  simp only [Document.tidyMembers, Document.tidy.eq_3, Document.tidy.eq_5, Document.tidyItems,
    hwide, hinner]
  generalize Binary64.ofInt (2 ^ 63) = x
  cbv

/-- The text makes a map with a float and with a list of one map, by itself and as a
configuration. -/
theorem ofJson_unshared_repeating :
    ∃ rs v h' rs', repeating.Nested Number.InRange Reader.maxDepth ∧ repeating.tidy = repeated ∧
      UnsharedTree .empty (empty.ofJson repeating).2 (empty.ofJson repeating).1 repeating rs ∧
      rs.length = 3 ∧ parseConfig .empty repeatingText .json none = .ok (v, h') ∧
      UnsharedTree .empty h' v repeating rs' := by
  obtain ⟨htree, hnested, hconfig⟩ := ofJson_unshared
  have hrange := hnested _ _ read_repeatingText
  obtain ⟨rs, hrs⟩ := htree .empty repeating _ hrange
  have hparse : parseConfig .empty repeatingText .json none = .ok (empty.ofJson repeating) := by
    simp only [parseConfig, readConfig, read_repeatingText]
    rfl
  obtain ⟨d, rs', hread, hrs'⟩ := hconfig _ _ _ _ _ hparse
  obtain rfl := Except.ok.inj (hread.symm.trans read_repeatingText)
  refine ⟨rs, _, _, rs', hrange, tidy_repeating, hrs, ?_, hparse, hrs'⟩
  rw [← hrs.length_table, tidy_repeating]
  rfl

end Heap
end WorkerHost
