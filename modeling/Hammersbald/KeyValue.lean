import Hammersbald.Api

/-!
# The key-value store `put`, `put_referred`, `get` and `get_referred` implement

What the write API of `api.rs` is for, said without files: a map from keys to the last record
`put` stored under them, and a map from positions to the record stored there.  `Store` is that
abstract state and `Store.record` its one transition: a `put` that returns `Ok pos` sets its key
to `(pos, data, referred)` and position `pos` to `(key, data, referred)`; a `put_referred` that
returns `Ok pos` sets position `pos` to `([], data, referred)`; a call that returns `Err` changes
nothing.

The concrete side is `Mem` with the debug-build `put` and `putReferred` of `Api`, run over a list
of `Call`s by `runCalls`.  `Implements m s` says that `get` of `m` is `get` of `s` on every key and
that `get_referred` of `m` is `get_referred` of `s` on every position `s` holds.

* `implements_apply` and `implements_runCalls`: one call keeps `Implements`, hence so does any run,
  from any state that keeps `Inv` (the key index leads to records, and every record lies below the
  end of the data file).
* `runCalls_implements`: from empty files, every run of calls implements the store its results
  replay.  This is the last-writer-wins of `get`, and every position a call returned stays
  readable with what that call stored.
* `get_runCalls_referred_lt`: `get` never returns a referred position at or past the record's own,
  although a rejected call may leave such a record in the data file.

Both need every envelope to take at least one byte: with envelopes of length zero two records
share a position and `get` reads the older one (the example after `runCalls_implements`).
-/

namespace Hammersbald

namespace Mem

/-- Modelled from the spec: `MemTable::get_envelope`, the record at a position of the data file;
`none` stands for its error. -/
def getEnvelope (m : Mem) (pos : Nat) : Option Record := m.records.lookup pos

/-- Every record lies below the end of the data file, so the next one goes to a fresh position. -/
def Fresh (m : Mem) : Prop := ∀ e ∈ m.records, e.1 < m.len

/-- The invariant of the states a run reaches. -/
structure Inv (m : Mem) : Prop where
  indexWf : m.IndexWf
  fresh : m.Fresh

theorem Inv.empty : Mem.empty.Inv := ⟨fun _ he => (nomatch he), fun _ he => (nomatch he)⟩

theorem lookup_len_of_fresh {m : Mem} (hf : m.Fresh) (r : Record) :
    (m.records ++ [(m.len, r)]).lookup m.len = some r := by
  have hnone : m.records.lookup m.len = none :=
    List.lookup_eq_none_iff.mpr fun e he => by simpa using (hf e he).ne'
  rw [List.lookup_append, hnone]
  simp

variable (envelopeLength : Record → Nat)

theorem Fresh.appendRecord {m : Mem} (hpos : ∀ r, 0 < envelopeLength r) (hf : m.Fresh)
    (r : Record) : (m.appendRecord envelopeLength r).1.Fresh := by
  intro e he
  have := hpos r
  rcases List.mem_append.mp he with he | he
  · exact Nat.lt_add_right _ (hf e he)
  · rw [List.mem_singleton.mp he]
    exact Nat.lt_add_of_pos_right this

theorem getEnvelope_appendRecord_of_isSome {m : Mem} {pos : Nat} (h : (m.getEnvelope pos).isSome)
    (r : Record) : (m.appendRecord envelopeLength r).1.getEnvelope pos = m.getEnvelope pos :=
  lookup_append_of_isSome h _

theorem getEnvelope_appendRecord_self {m : Mem} (hf : m.Fresh) (r : Record) :
    (m.appendRecord envelopeLength r).1.getEnvelope m.len = some r :=
  lookup_len_of_fresh hf r

/-- After a record is appended and its key put at its position, that key leads to it and every
other key leads where it did. -/
theorem get_put_appendRecord {m : Mem} (hi : m.Inv) (r : Record) (key key' : List UInt8) :
    ((m.appendRecord envelopeLength r).1.put key m.len).get key' =
      if key' = key then some (m.len, r.data, r.referred) else m.get key' := by
  split_ifs with hk
  · subst hk
    have hfind : ((key', m.len) :: m.index).find? (fun e : List UInt8 × Nat => e.1 == key') =
        some (key', m.len) := List.find?_cons_of_pos _ (beq_self_eq_true key')
    show (do
        let pos ← (((key', m.len) :: m.index).find? fun e : List UInt8 × Nat => e.1 == key').map
          Prod.snd
        let r' ← (m.records ++ [(m.len, r)]).lookup pos
        pure (pos, r'.data, r'.referred)) = _
    rw [hfind]
    show (((m.records ++ [(m.len, r)]).lookup m.len).bind
      fun r' => some (m.len, r'.data, r'.referred)) = _
    rw [lookup_len_of_fresh hi.fresh]
    rfl
  · rw [← get_appendRecord envelopeLength hi.indexWf r key']
    have hne : ((key, m.len).1 == key') = false := beq_false_of_ne (Ne.symm hk)
    simp only [get, put, List.find?_cons, hne]

end Mem

namespace Api

/-! ## Calls and runs -/

/-- A call of the write API. -/
inductive Call
  | put (key data : List UInt8) (referred : List Nat)
  | putReferred (data : List UInt8) (referred : List Nat)
deriving DecidableEq, Repr

/-- The referred positions a call stores. -/
def Call.referred : Call → List Nat
  | .put _ _ referred => referred
  | .putReferred _ referred => referred

variable (envelopeLength : Record → Nat)

/-- The state a call leaves, and its result. -/
def Call.apply (m : Mem) : Call → Mem × Except HammersbaldError Nat
  | .put key data referred => Api.put envelopeLength m key data referred
  | .putReferred data referred => Api.putReferred envelopeLength m data referred

/-- Calls one after another: the state the last leaves, and each call's result. -/
def runCalls (m : Mem) : List Call → Mem × List (Except HammersbaldError Nat)
  | [] => (m, [])
  | c :: cs =>
    let r := c.apply envelopeLength m
    let rest := runCalls r.1 cs
    (rest.1, r.2 :: rest.2)

/-- `Hammersbald::get_referred`: the key, data and referred positions of the record at a position,
the key empty for a referred record; `none` stands for the error of `get_envelope`. -/
def getReferred (m : Mem) (pos : Nat) : Option (List UInt8 × List UInt8 × List Nat) :=
  (m.getEnvelope pos).map fun r => (r.key, r.data, r.referred)

/-! ## The abstract store -/

/-- What the API promises: each key to the position, data and referred positions of the last
`put` of it that returned `Ok`, and each position returned `Ok` to the key, data and referred
positions stored there. -/
structure Store where
  get : List UInt8 → Option (Nat × List UInt8 × List Nat)
  getReferred : Nat → Option (List UInt8 × List UInt8 × List Nat)

namespace Store

/-- Nothing stored. -/
def empty : Store := ⟨fun _ => none, fun _ => none⟩

/-- The effect of a call on the store, given its result. -/
def record (s : Store) : Call → Except HammersbaldError Nat → Store
  | .put key data referred, .ok pos =>
    ⟨fun k => if k = key then some (pos, data, referred) else s.get k,
      fun p => if p = pos then some (key, data, referred) else s.getReferred p⟩
  | .putReferred data referred, .ok pos =>
    ⟨s.get, fun p => if p = pos then some ([], data, referred) else s.getReferred p⟩
  | _, .error _ => s

@[simp] theorem record_error (s : Store) (c : Call) (e : HammersbaldError) :
    s.record c (.error e) = s := by
  cases c <;> rfl

/-- Calls with their results, one after another. -/
def replay (s : Store) : List Call → List (Except HammersbaldError Nat) → Store
  | c :: cs, r :: rs => (s.record c r).replay cs rs
  | _, _ => s

/-- No stored record refers to its own position or past it. -/
def NoForward (s : Store) : Prop :=
  (∀ key pos data referred, s.get key = some (pos, data, referred) → ∀ q ∈ referred, q < pos) ∧
    ∀ pos key data referred, s.getReferred pos = some (key, data, referred) →
      ∀ q ∈ referred, q < pos

theorem NoForward.empty : empty.NoForward :=
  ⟨fun _ _ _ _ h => (nomatch h), fun _ _ _ _ h => (nomatch h)⟩

/-- Recording a call that refers only below the position it returned keeps `NoForward`. -/
theorem NoForward.record {s : Store} (hs : s.NoForward) (c : Call) (r : Except HammersbaldError Nat)
    (hr : ∀ pos, r = .ok pos → ∀ q ∈ c.referred, q < pos) : (s.record c r).NoForward := by
  rcases r with e | pos
  · rw [record_error]; exact hs
  have hlt := hr pos rfl
  cases c with
  | put key data referred =>
    refine ⟨fun k p d rs h => ?_, fun p k d rs h => ?_⟩
    · dsimp only [Store.record] at h
      split_ifs at h
      · cases h; exact hlt
      · exact hs.1 k p d rs h
    · dsimp only [Store.record] at h
      split_ifs at h with hp
      · cases h; subst hp; exact hlt
      · exact hs.2 p k d rs h
  | putReferred data referred =>
    refine ⟨hs.1, fun p k d rs h => ?_⟩
    dsimp only [Store.record] at h
    split_ifs at h with hp
    · cases h; subst hp; exact hlt
    · exact hs.2 p k d rs h

end Store

/-! ## The refinement -/

/-- `m` implements `s`: `get` agrees on every key, and `get_referred` on every position `s`
holds. -/
def Implements (m : Mem) (s : Store) : Prop :=
  (∀ key, m.get key = s.get key) ∧ ∀ pos v, s.getReferred pos = some v → getReferred m pos = some v

theorem implements_empty : Implements Mem.empty Store.empty :=
  ⟨fun _ => rfl, fun _ _ h => (nomatch h)⟩

/-- A call returns `Ok pos` only when every position it refers to is below `pos`. -/
theorem apply_ok_referred_lt (m : Mem) (c : Call) {pos : Nat}
    (h : (c.apply envelopeLength m).2 = .ok pos) : ∀ q ∈ c.referred, q < pos := by
  have hok : forwardReference c.referred m.len = false ∧ pos = m.len := by
    cases c with
    | put key data referred =>
      simp only [Call.apply, put_eq] at h
      split_ifs at h with h₁ h₂
      cases h
      exact ⟨Bool.not_eq_true _ ▸ h₂, rfl⟩
    | putReferred data referred =>
      simp only [Call.apply, putReferred_eq] at h
      split_ifs at h with h₁
      cases h
      exact ⟨Bool.not_eq_true _ ▸ h₁, rfl⟩
  intro q hq
  have := List.any_eq_false.mp hok.1 q hq
  rw [hok.2]
  simpa using this

section Refinement

/-- Appending a record keeps every `get_referred` the store holds. -/
theorem implements_appendRecord {m : Mem} {s : Store} (hi : m.Inv) (h : Implements m s)
    (r : Record) : Implements (m.appendRecord envelopeLength r).1 s := by
  refine ⟨fun key => (Mem.get_appendRecord envelopeLength hi.indexWf r key).trans (h.1 key),
    fun pos v hv => ?_⟩
  have hm := h.2 pos v hv
  have hsome : (m.getEnvelope pos).isSome := by
    unfold getReferred at hm
    cases he : m.getEnvelope pos
    · rw [he] at hm; cases hm
    · rfl
  unfold getReferred
  rw [Mem.getEnvelope_appendRecord_of_isSome envelopeLength hsome]
  exact hm

/-- The record a successful call appended is what `get_referred` reads at the position it
returned. -/
theorem getReferred_appendRecord_self {m : Mem} (hi : m.Inv) (r : Record) :
    getReferred (m.appendRecord envelopeLength r).1 m.len = some (r.key, r.data, r.referred) := by
  unfold getReferred
  rw [Mem.getEnvelope_appendRecord_self envelopeLength hi.fresh]
  rfl

/-- One call keeps `Implements`: the step of the refinement. -/
theorem implements_apply {m : Mem} {s : Store} (hi : m.Inv) (h : Implements m s) (c : Call) :
    Implements (c.apply envelopeLength m).1 (s.record c (c.apply envelopeLength m).2) := by
  have happ := implements_appendRecord envelopeLength hi h
  have hself := getReferred_appendRecord_self envelopeLength hi
  cases c with
  | put key data referred =>
    rw [Call.apply, put_eq]
    split_ifs
    · exact h
    · exact happ _
    · dsimp only [Mem.appendData]
      refine ⟨fun k => ?_, fun p v hv => ?_⟩
      · rw [Mem.get_put_appendRecord envelopeLength hi, h.1 k]
        rfl
      · dsimp only [Store.record] at hv
        split_ifs at hv with hp
        · cases hv; subst hp; exact hself _
        · exact (happ _).2 p v hv
  | putReferred data referred =>
    rw [Call.apply, putReferred_eq]
    split_ifs
    · exact happ _
    · refine ⟨(happ _).1, fun p v hv => ?_⟩
      dsimp only [Store.record] at hv
      split_ifs at hv with hp
      · cases hv; subst hp; exact hself _
      · exact (happ _).2 p v hv

variable {envelopeLength}
variable (hpos : ∀ r, 0 < envelopeLength r)
include hpos

/-- One call keeps the invariant. -/
theorem inv_apply {m : Mem} (hi : m.Inv) (c : Call) : (c.apply envelopeLength m).1.Inv := by
  have hf : ∀ r, (m.appendRecord envelopeLength r).1.Fresh := hi.fresh.appendRecord _ hpos
  cases c with
  | put key data referred =>
    refine ⟨indexWf_put envelopeLength hi.indexWf key data referred, ?_⟩
    rw [Call.apply, put_eq]
    split_ifs
    exacts [hi.fresh, hf _, hf _]
  | putReferred data referred =>
    refine ⟨indexWf_putReferred envelopeLength hi.indexWf data referred, ?_⟩
    rw [Call.apply, putReferred_eq]
    split_ifs <;> exact hf _

/-- Any run keeps `Implements`, from any state that keeps the invariant. -/
theorem implements_runCalls (cs : List Call) :
    ∀ {m : Mem} {s : Store}, m.Inv → Implements m s →
      Implements (runCalls envelopeLength m cs).1 (s.replay cs (runCalls envelopeLength m cs).2) := by
  induction cs with
  | nil => intro m s _ h; exact h
  | cons c cs ih =>
    intro m s hi h
    exact ih (inv_apply hpos hi c) (implements_apply envelopeLength hi h c)

/-- From empty files, every run of `put` and `put_referred` calls implements the store its results
replay: `get` returns the last record a `put` of the key returned `Ok` for, and `get_referred`
returns, at each position a call returned, the record that call stored. -/
theorem runCalls_implements (cs : List Call) :
    Implements (runCalls envelopeLength Mem.empty cs).1
      (Store.empty.replay cs (runCalls envelopeLength Mem.empty cs).2) :=
  implements_runCalls hpos cs Mem.Inv.empty implements_empty

end Refinement

theorem runCalls_implements_supersede :
    (∀ r : Record, 0 < (fun _ => 1) r) ∧
      Implements (runCalls (fun _ => 1) Mem.empty [.put [1] [2] [], .put [1] [3] [0]]).1
        (Store.empty.replay [.put [1] [2] [], .put [1] [3] [0]]
          (runCalls (fun _ => 1) Mem.empty [.put [1] [2] [], .put [1] [3] [0]]).2) :=
  ⟨fun _ => Nat.one_pos, runCalls_implements (fun _ => Nat.one_pos) _⟩

/-- With envelopes of length zero both records of a key sit at position 0, and `get` reads the
first. -/
example : (runCalls (fun _ => 0) Mem.empty [.put [1] [2] [], .put [1] [3] []]).1.get [1] =
    some (0, [2], []) := by decide

/-- Every run keeps `NoForward` of the store its results replay. -/
theorem noForward_replay_runCalls (cs : List Call) :
    ∀ (m : Mem) {s : Store}, s.NoForward →
      (s.replay cs (runCalls envelopeLength m cs).2).NoForward := by
  induction cs with
  | nil => intro m s hs; exact hs
  | cons c cs ih =>
    intro m s hs
    exact ih _ (hs.record c _ fun _ h => apply_ok_referred_lt envelopeLength m c h)

/-- After any run from empty files, `get` never returns a referred position at or past the
position of the record it returns. -/
theorem get_runCalls_referred_lt (hpos : ∀ r, 0 < envelopeLength r) (cs : List Call)
    {key data : List UInt8} {pos : Nat} {referred : List Nat}
    (h : (runCalls envelopeLength Mem.empty cs).1.get key = some (pos, data, referred)) :
    ∀ q ∈ referred, q < pos := by
  rw [(implements_runCalls hpos cs Mem.Inv.empty implements_empty).1 key] at h
  exact (noForward_replay_runCalls envelopeLength cs Mem.empty Store.NoForward.empty).1 _ _ _ _ h

theorem get_runCalls_referred_lt_supersede :
    (∀ r : Record, 0 < (fun _ => 1) r) ∧
      (runCalls (fun _ => 1) Mem.empty [.put [1] [2] [], .put [1] [3] [0]]).1.get [1] =
        some (1, [3], [0]) ∧ ∀ q ∈ [0], q < 1 :=
  ⟨fun _ => Nat.one_pos, by decide,
    @get_runCalls_referred_lt (fun _ => 1) (fun _ => Nat.one_pos) [.put [1] [2] [], .put [1] [3] [0]]
      [1] [3] 1 [0] (by decide)⟩

end Api

end Hammersbald
