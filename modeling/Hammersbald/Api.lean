import Hammersbald.PagedFile.Appender

/-!
# `put`, `put_referred` and `get` of `api.rs`

`Hammersbald::put(key, data, referred)` rejects a key longer than 255 bytes or data of `2^23`
bytes or more, appends an indexed record to the data file with `MemTable::append_data`, rejects a
referred position that is not below the new record's, and installs the key in the index with
`MemTable::put`.  `put_referred(data, referred)` appends a referred record with
`MemTable::append_referred` and makes the same check.  Both checks are those of a debug build, and
both return `HammersbaldError::ForwardReference`.  The methods take `&mut self`, so a call that
returns `Err` keeps what it did before.

The model.

* The `MemTable` of this lineage is not in the snapshot.  `Mem` models it from the spec: the
  records of the data file at their positions, the end of the data file, and the key index.  The
  length of a record's envelope is a parameter, `envelopeLength`: `format.rs` is not in the
  snapshot either.
* `put` and `putReferred` return the state they leave with their result.

The results.

* `failed_put_keeps_index`: on every reachable state, a `put` or `put_referred` that returns `Err`
  leaves the key index and every `get` as they were, and the data file as it was (the length
  check) or with the rejected record appended (the forward-reference check).
* `putReferred_forward_reference_keeps_record`: a `put_referred` with a forward reference returns
  `Err` and leaves its record in the data file, where `data_envelopes()` returns it.
-/

namespace Hammersbald

/-- Modelled from the spec: a record, indexed (with its key) or referred (with an empty key). -/
structure Record where
  key : List UInt8
  data : List UInt8
  referred : List Nat
deriving DecidableEq, Repr

/-- Modelled from the spec: the `MemTable` of `api.rs`, as the records of the data file with their
positions, oldest first, the end of the data file, and the key index, newest entry first. -/
structure Mem where
  records : List (Nat × Record)
  len : Nat
  index : List (List UInt8 × Nat)
deriving DecidableEq, Repr

namespace Mem

/-- A database with empty files. -/
def empty : Mem := ⟨[], 0, []⟩

section Envelope

variable (envelopeLength : Record → Nat)

/-- Modelled from the spec: the record goes to the end of the data file; its position. -/
def appendRecord (m : Mem) (r : Record) : Mem × Nat :=
  ({ m with records := m.records ++ [(m.len, r)], len := m.len + envelopeLength r }, m.len)

/-- `MemTable::append_data`: an indexed record. -/
def appendData (m : Mem) (key data : List UInt8) (referred : List Nat) : Mem × Nat :=
  appendRecord envelopeLength m ⟨key, data, referred⟩

/-- `MemTable::append_referred`: a referred record, with no key. -/
def appendReferred (m : Mem) (data : List UInt8) (referred : List Nat) : Mem × Nat :=
  appendRecord envelopeLength m ⟨[], data, referred⟩

end Envelope

/-- Modelled from the spec: `MemTable::put`, the key now leads to the record at `pos`. -/
def put (m : Mem) (key : List UInt8) (pos : Nat) : Mem := { m with index := (key, pos) :: m.index }

/-- Modelled from the spec: `MemTable::get`, the position, data and referred positions of the
record the key was put with last. -/
def get (m : Mem) (key : List UInt8) : Option (Nat × List UInt8 × List Nat) := do
  let pos ← (m.index.find? (·.1 == key)).map Prod.snd
  let r ← m.records.lookup pos
  pure (pos, r.data, r.referred)

/-- Modelled from the spec: `MemTable::data_envelopes`, the records of the data file with their
positions. -/
def dataEnvelopes (m : Mem) : List (Nat × Record) := m.records

end Mem

namespace Api

variable (envelopeLength : Record → Nat)

/-- The check of a debug build: some referred position is not below the new record's. -/
def forwardReference (referred : List Nat) (dataOffset : Nat) : Bool :=
  referred.any (dataOffset ≤ ·)

/-- `Hammersbald::put` of a debug build: the state it leaves, and its result. -/
def put (m : Mem) (key data : List UInt8) (referred : List Nat) :
    Mem × Except HammersbaldError Nat :=
  if 255 < key.length ∨ 2 ^ 23 ≤ data.length then (m, .error .forwardReference)
  else
    let (m, dataOffset) := m.appendData envelopeLength key data referred
    if forwardReference referred dataOffset then (m, .error .forwardReference)
    else (m.put key dataOffset, .ok dataOffset)

/-- `Hammersbald::put_referred` of a debug build: the state it leaves, and its result. -/
def putReferred (m : Mem) (data : List UInt8) (referred : List Nat) :
    Mem × Except HammersbaldError Nat :=
  let (m, dataOffset) := m.appendReferred envelopeLength data referred
  if forwardReference referred dataOffset then (m, .error .forwardReference)
  else (m, .ok dataOffset)

theorem put_eq (m : Mem) (key data : List UInt8) (referred : List Nat) :
    put envelopeLength m key data referred =
      if 255 < key.length ∨ 2 ^ 23 ≤ data.length then (m, .error .forwardReference)
      else if forwardReference referred m.len then
        ((m.appendData envelopeLength key data referred).1, .error .forwardReference)
      else ((m.appendData envelopeLength key data referred).1.put key m.len, .ok m.len) := rfl

theorem putReferred_eq (m : Mem) (data : List UInt8) (referred : List Nat) :
    putReferred envelopeLength m data referred =
      if forwardReference referred m.len then
        ((m.appendReferred envelopeLength data referred).1, .error .forwardReference)
      else ((m.appendReferred envelopeLength data referred).1, .ok m.len) := rfl

/-- The states reachable from empty files by `put` and `put_referred` calls, whatever they return:
a call that returns `Err` keeps its state too. -/
inductive Reachable : Mem → Prop
  | empty : Reachable Mem.empty
  | put {m : Mem} (key data : List UInt8) (referred : List Nat) :
      Reachable m → Reachable (put envelopeLength m key data referred).1
  | putReferred {m : Mem} (data : List UInt8) (referred : List Nat) :
      Reachable m → Reachable (putReferred envelopeLength m data referred).1

end Api

namespace Mem

/-- Every key of the index leads to a record of the data file. -/
def IndexWf (m : Mem) : Prop := ∀ e ∈ m.index, (m.records.lookup e.2).isSome

theorem lookup_append_of_isSome {l : List (Nat × Record)} {p : Nat} (h : (l.lookup p).isSome)
    (x : Nat × Record) : (l ++ [x]).lookup p = l.lookup p := by
  obtain ⟨b, hb⟩ := Option.isSome_iff_exists.mp h
  rw [List.lookup_append, hb]
  rfl

theorem lookup_append_self (l : List (Nat × Record)) (p : Nat) (r : Record) :
    ((l ++ [(p, r)]).lookup p).isSome := by
  rw [List.lookup_append]
  cases l.lookup p <;> simp

variable (envelopeLength : Record → Nat)

/-- Appending a record changes no `get`. -/
theorem get_appendRecord {m : Mem} (hm : m.IndexWf) (r : Record) (key : List UInt8) :
    (m.appendRecord envelopeLength r).1.get key = m.get key := by
  show (do
      let pos ← (m.index.find? (·.1 == key)).map Prod.snd
      let r' ← (m.records ++ [(m.len, r)]).lookup pos
      pure (pos, r'.data, r'.referred)) = m.get key
  unfold get
  cases hf : m.index.find? (·.1 == key) with
  | none => rfl
  | some e =>
    show (((m.records ++ [(m.len, r)]).lookup e.2).bind fun r' => some (e.2, r'.data, r'.referred)) =
      ((m.records.lookup e.2).bind fun r' => some (e.2, r'.data, r'.referred))
    rw [lookup_append_of_isSome (hm e (List.mem_of_find?_eq_some hf))]

theorem IndexWf.appendRecord {m : Mem} (hm : m.IndexWf) (r : Record) :
    (m.appendRecord envelopeLength r).1.IndexWf := fun e he => by
  show ((m.records ++ [(m.len, r)]).lookup e.2).isSome
  rw [lookup_append_of_isSome (hm e he)]
  exact hm e he

theorem IndexWf.put_appendRecord {m : Mem} (hm : m.IndexWf) (r : Record) (key : List UInt8) :
    ((m.appendRecord envelopeLength r).1.put key m.len).IndexWf := by
  rintro e (he | ⟨_, he⟩)
  · exact lookup_append_self _ _ _
  · exact hm.appendRecord envelopeLength r e he

end Mem

namespace Api

variable (envelopeLength : Record → Nat)

theorem indexWf_put {m : Mem} (hm : m.IndexWf) (key data : List UInt8) (referred : List Nat) :
    (put envelopeLength m key data referred).1.IndexWf := by
  rw [put_eq]
  split_ifs
  · exact hm
  · exact hm.appendRecord envelopeLength _
  · exact hm.put_appendRecord envelopeLength _ key

theorem indexWf_putReferred {m : Mem} (hm : m.IndexWf) (data : List UInt8) (referred : List Nat) :
    (putReferred envelopeLength m data referred).1.IndexWf := by
  rw [putReferred_eq]
  split_ifs <;> exact hm.appendRecord envelopeLength _

theorem Reachable.indexWf {m : Mem} (h : Reachable envelopeLength m) : m.IndexWf := by
  induction h with
  | empty => intro e he; cases he
  | put key data referred _ ih => exact indexWf_put envelopeLength ih key data referred
  | putReferred data referred _ ih => exact indexWf_putReferred envelopeLength ih data referred

/-- What a call that returns `Err` may change, given the record `r` it was asked to store: the key
index and every `get` are as they were, and the state is as it was or has exactly `r` appended at
the old end of the data file. -/
def KeepsIndex (m : Mem) (r : Record) (m' : Mem) : Prop :=
  m'.index = m.index ∧ (∀ key, m'.get key = m.get key) ∧
    (m' = m ∨ m' = (m.appendRecord envelopeLength r).1)

theorem keepsIndex_self (m : Mem) (r : Record) : KeepsIndex envelopeLength m r m :=
  ⟨rfl, fun _ => rfl, .inl rfl⟩

theorem keepsIndex_appendRecord {m : Mem} (hm : m.IndexWf) (r : Record) :
    KeepsIndex envelopeLength m r (m.appendRecord envelopeLength r).1 :=
  ⟨rfl, Mem.get_appendRecord envelopeLength hm r, .inr rfl⟩

/-- On every reachable state, a `put` or `put_referred` that returns `Err` leaves the key index and
every `get` as they were, and the state as it was or with exactly the call's own record appended. -/
theorem failed_put_keeps_index {m : Mem} (hm : Reachable envelopeLength m) :
    (∀ key data referred e, (put envelopeLength m key data referred).2 = .error e →
      KeepsIndex envelopeLength m ⟨key, data, referred⟩ (put envelopeLength m key data referred).1) ∧
    (∀ data referred e, (putReferred envelopeLength m data referred).2 = .error e →
      KeepsIndex envelopeLength m ⟨[], data, referred⟩
        (putReferred envelopeLength m data referred).1) := by
  have hwf := hm.indexWf
  refine ⟨fun key data referred e he => ?_, fun data referred e he => ?_⟩
  · rw [put_eq] at he ⊢
    split_ifs at he ⊢
    · exact keepsIndex_self envelopeLength m _
    · exact keepsIndex_appendRecord envelopeLength hwf _
  · rw [putReferred_eq] at he ⊢
    split_ifs at he ⊢
    exact keepsIndex_appendRecord envelopeLength hwf _

theorem failed_put_keeps_index_of_empty :
    (∀ key data referred e, (put (fun _ => 1) Mem.empty key data referred).2 = .error e →
      KeepsIndex (fun _ => 1) Mem.empty ⟨key, data, referred⟩
        (put (fun _ => 1) Mem.empty key data referred).1) ∧
    (∀ data referred e, (putReferred (fun _ => 1) Mem.empty data referred).2 = .error e →
      KeepsIndex (fun _ => 1) Mem.empty ⟨[], data, referred⟩
        (putReferred (fun _ => 1) Mem.empty data referred).1) :=
  failed_put_keeps_index (fun _ => 1) .empty

/-- A `put_referred` whose referred position is past the end of an empty data file returns
`ForwardReference` after its record has been appended, and `data_envelopes()` returns that record. -/
theorem putReferred_forward_reference_keeps_record :
    (putReferred envelopeLength Mem.empty [] [2 ^ 47]).2 = .error .forwardReference ∧
      (putReferred envelopeLength Mem.empty [] [2 ^ 47]).1.dataEnvelopes =
        Mem.empty.dataEnvelopes ++ [(0, ⟨[], [], [2 ^ 47]⟩)] :=
  ⟨rfl, rfl⟩

end Api

end Hammersbald
