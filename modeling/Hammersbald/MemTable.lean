import Hammersbald.Page

/-!
# The in-memory index of `memtable.rs`

`MemTable` holds one bucket per linear-hash slot, each a vector of hashes and a vector of data
offsets.  `load` rebuilds the buckets from the bucket pointers of the table and the link records,
and `get` looks a key up in the bucket its hash selects.

The model keeps `get` and `load` as they compute, with `u32` values as `UInt32`, and these
differences.

* `MemTable::hash` is SipHash under the keys `sip0` and `sip1`; the model takes the hash of the key
  as an argument (`getHash`), and leaves `sip0` and `sip1` out.
* The bucket iterator and the link iterator of `BCDB` are not in the source: `load` takes what
  they yield, the bucket pointers and the link records `(self_offset, links)`.  `Offset` is not in
  the source either; an offset is its `u64` value, valid unless it is the invalid sentinel.
* `Except String` stands for a call of a debug build: `.error msg` is a panic with message `msg`.
  `u32` subtraction below zero and a shift by 32 or more panic there.

The results.

* Bucket selection.  For `1 ≤ log_mod < 32` the bucket number of `get` is the linear-hash
  formula `linearBucket` (`bucketNumber_eq_linearBucket`), which is below `2^log_mod + step`, the
  number of buckets (`linearBucket_lt`); `bucketNumber_eq` puts the two together.  At `log_mod = 0` the mask `!0u32 >> 32` overflows:
  a debug build panics, and a release build shifts by `32 mod 32 = 0` and takes the whole hash
  as the bucket number (`bucketNumber_log_mod_zero`).
* Loading.  `load_buckets`: with the bucket pointers of the valid slots below the bucket count and
  pairwise distinct, `load` never panics, and every bucket holds as many hashes as offsets, zipped
  to the links of the records attached to its slot, latest record first.
* Lookup.  `get_after_load`: for `1 ≤ log_mod < 32`, `get` returns the offsets stored under the
  key's hash in the records attached to the slot the hash selects, latest record first.  At
  `log_mod = 0` it panics in a debug build, whatever the table holds (`get_log_mod_zero`).
-/

namespace Hammersbald

/-- Modelled from the spec: `Offset::is_valid`, every offset but the invalid sentinel. -/
def Offset.isValid (o : Nat) : Bool := o != PRef.invalid

/-- A bucket of the memtable: hashes and data offsets, meant to be of equal length. -/
structure Bucket where
  hashes : List UInt32
  offsets : List Nat
deriving DecidableEq, Repr

/-- The hash-offset pairs of a slot; a slot without bucket has none. -/
def Bucket.entries : Option Bucket → List (UInt32 × Nat)
  | some b => b.hashes.zip b.offsets
  | none => []

/-- The memtable, without the SipHash keys. -/
structure MemTable where
  step : UInt32
  logMod : UInt32
  buckets : List (Option Bucket)
deriving DecidableEq, Repr

namespace MemTable

/-- `MemTable::new`: `buckets` empty slots. -/
def new (step buckets logMod : UInt32) : MemTable := ⟨step, logMod, List.replicate buckets.toNat none⟩

/-! ## Bucket selection -/

/-- `a - b` on `u32`; a debug build panics below zero. -/
def subU32 (a b : UInt32) : Except String UInt32 :=
  if b ≤ a then .ok (a - b) else .error "attempt to subtract with overflow"

/-- `!0u32 >> k`; a debug build panics when `k` is 32 or more. -/
def onesShr (k : UInt32) : Except String UInt32 :=
  if k < 32 then .ok (~~~0 >>> k) else .error "attempt to shift right with overflow"

/-- The bucket number that `MemTable::get` computes for a hash. -/
def bucketNumber (t : MemTable) (hash : UInt32) : Except String Nat := do
  let bucketNumber := (hash &&& (← onesShr (← subU32 32 t.logMod))).toNat
  if bucketNumber < t.step.toNat then
    pure (hash &&& (← onesShr (← subU32 (← subU32 32 t.logMod) 1))).toNat
  else pure bucketNumber

/-- The linear-hash bucket of a hash: `h mod 2^log_mod`, or `h mod 2^(log_mod+1)` for the
slots below `step`, which are split already. -/
def linearBucket (logMod step h : Nat) : Nat :=
  if step ≤ h % 2 ^ logMod then h % 2 ^ logMod else h % 2 ^ (logMod + 1)

theorem toNat_shiftRight (a b : UInt32) : (a >>> b).toNat = a.toNat >>> (b.toNat % 32) := by
  show (a.toBitVec >>> (UInt32.mod b 32).toBitVec).toNat = _
  simp [BitVec.toNat_ushiftRight]
  rfl

/-- `!0u32 >> k` is the mask of the low `32 - k` bits. -/
theorem toNat_ones_shiftRight {k : UInt32} (hk : k.toNat < 32) :
    (~~~(0 : UInt32) >>> k).toNat = 2 ^ (32 - k.toNat) - 1 := by
  have hmask : ∀ j < 32, (2 ^ 32 - 1) >>> j = 2 ^ (32 - j) - 1 := by decide
  rw [toNat_shiftRight, Nat.mod_eq_of_lt hk, ← hmask _ hk]
  rfl

theorem toNat_and_ones_shiftRight (hash : UInt32) {k : UInt32} (hk : k.toNat < 32) :
    (hash &&& (~~~(0 : UInt32) >>> k)).toNat = hash.toNat % 2 ^ (32 - k.toNat) := by
  rw [UInt32.and_toNat, toNat_ones_shiftRight hk, Nat.and_pow_two_sub_one_eq_mod]

theorem subU32_of_le {a b : UInt32} (h : b.toNat ≤ a.toNat) :
    ∃ c, subU32 a b = .ok c ∧ c.toNat = a.toNat - b.toNat :=
  ⟨a - b, if_pos h, UInt32.toNat_sub_of_le a b h⟩

theorem onesShr_of_lt {k : UInt32} (hk : k.toNat < 32) : onesShr k = .ok (~~~0 >>> k) :=
  if_pos hk

/-- For `1 ≤ log_mod < 32`, `get` selects the linear-hash bucket of the hash. -/
theorem bucketNumber_eq_linearBucket (t : MemTable) (hash : UInt32) (h0 : 0 < t.logMod.toNat)
    (h32 : t.logMod.toNat < 32) :
    bucketNumber t hash = .ok (linearBucket t.logMod.toNat t.step.toNat hash.toNat) := by
  have h₃₂ : (32 : UInt32).toNat = 32 := rfl
  have h₁ : (1 : UInt32).toNat = 1 := rfl
  obtain ⟨k, hk, hkv⟩ := subU32_of_le (a := 32) (b := t.logMod) (by rw [h₃₂]; omega)
  rw [h₃₂] at hkv
  obtain ⟨k', hk', hkv'⟩ := subU32_of_le (a := k) (b := 1) (by rw [h₁, hkv]; omega)
  rw [h₁, hkv] at hkv'
  have hlow : (hash &&& (~~~0 >>> k)).toNat = hash.toNat % 2 ^ t.logMod.toNat := by
    rw [toNat_and_ones_shiftRight hash (by omega), hkv]; congr 2; omega
  have hhigh : (hash &&& (~~~0 >>> k')).toNat = hash.toNat % 2 ^ (t.logMod.toNat + 1) := by
    rw [toNat_and_ones_shiftRight hash (by omega), hkv']; congr 2; omega
  simp only [bucketNumber, hk, hk', onesShr_of_lt (k := k) (by omega),
    onesShr_of_lt (k := k') (by omega), bind, Except.bind, pure, Except.pure, hlow, hhigh,
    linearBucket]
  split_ifs <;> first | rfl | omega

/-- The linear-hash bucket is one of the `2^log_mod + step` buckets. -/
theorem linearBucket_lt (logMod step h : Nat) :
    linearBucket logMod step h < 2 ^ logMod + step := by
  have hlow := Nat.mod_lt h (Nat.two_pow_pos logMod)
  unfold linearBucket
  split_ifs with hle
  · omega
  · have hsplit : h % 2 ^ (logMod + 1) = h % 2 ^ logMod + 2 ^ logMod * (h / 2 ^ logMod % 2) :=
      Nat.mod_pow_succ
    rcases Nat.mod_two_eq_zero_or_one (h / 2 ^ logMod) with hbit | hbit <;>
      rw [hbit] at hsplit <;> omega

/-- For `1 ≤ log_mod < 32` the bucket `get` selects for a hash `h`, without panicking, is
`h mod 2^log_mod` when that is at least `step`, and `h mod 2^(log_mod+1)` otherwise: one of the
`2^log_mod + step` buckets of the linear-hash table. -/
theorem bucketNumber_eq (t : MemTable) (hash : UInt32) (h0 : 0 < t.logMod.toNat)
    (h32 : t.logMod.toNat < 32) :
    ∃ n, bucketNumber t hash = .ok n ∧
      n = (if t.step.toNat ≤ hash.toNat % 2 ^ t.logMod.toNat then hash.toNat % 2 ^ t.logMod.toNat
        else hash.toNat % 2 ^ (t.logMod.toNat + 1)) ∧
      n < 2 ^ t.logMod.toNat + t.step.toNat :=
  ⟨_, bucketNumber_eq_linearBucket t hash h0 h32, rfl, linearBucket_lt _ _ _⟩

/-- `bucketNumber_eq` at `log_mod = 3`, `step = 2`, for the hash `13`. -/
theorem bucketNumber_eq_log_mod_three :
    0 < (3 : UInt32).toNat ∧ (3 : UInt32).toNat < 32 ∧
      ∃ n, bucketNumber ⟨2, 3, []⟩ 13 = .ok n ∧
        n = (if (2 : UInt32).toNat ≤ (13 : UInt32).toNat % 2 ^ (3 : UInt32).toNat then
          (13 : UInt32).toNat % 2 ^ (3 : UInt32).toNat
          else (13 : UInt32).toNat % 2 ^ ((3 : UInt32).toNat + 1)) ∧
        n < 2 ^ (3 : UInt32).toNat + (2 : UInt32).toNat :=
  ⟨by decide, by decide, bucketNumber_eq ⟨2, 3, []⟩ 13 (by decide) (by decide)⟩

/-- At `log_mod = 0` a debug build panics in `get`, and a release build, where `>> 32` shifts by
`0`, takes the hash `1` as its bucket number, where the linear-hash bucket of `1` is `0`. -/
theorem bucketNumber_log_mod_zero :
    bucketNumber ⟨0, 0, [none]⟩ 1 = .error "attempt to shift right with overflow" ∧
      ((1 : UInt32) &&& (~~~(0 : UInt32) >>> (32 - 0 : UInt32))).toNat = 1 ∧
      linearBucket 0 0 1 = 0 :=
  ⟨rfl, by decide, by decide⟩

/-! ## Lookup in a bucket -/

/-- The loop of `get` over `bucket.hashes.iter().enumerate()`, from index `n`: the offset at
the index of each hash equal to `hash`, and a panic of `unwrap` where `offsets` is too short. -/
def collect (hash : UInt32) (offsets : List Nat) : Nat → List UInt32 → Except String (List Nat)
  | _, [] => .ok []
  | n, h :: hs =>
    if h = hash then
      match offsets[n]? with
      | some o => (collect hash offsets (n + 1) hs).map (o :: ·)
      | none => .error "called Option::unwrap() on a None value"
    else collect hash offsets (n + 1) hs

/-- `MemTable::get` for a key of hash `hash`. -/
def getHash (t : MemTable) (hash : UInt32) : Except String (List Nat) := do
  match t.buckets[← bucketNumber t hash]? with
  | some (some bucket) => collect hash bucket.offsets 0 bucket.hashes
  | _ => pure []

/-- `MemTable::get`, with `MemTable::hash` as the argument `hash`. -/
def get (t : MemTable) (hash : List UInt8 → UInt32) (key : List UInt8) :
    Except String (List Nat) :=
  getHash t (hash key)

/-- With offsets at least as long as the hashes, the loop returns the offsets paired with
`hash`. -/
theorem collect_eq (hash : UInt32) (offsets : List Nat) (hs : List UInt32) (n : Nat)
    (hlen : n + hs.length ≤ offsets.length) :
    collect hash offsets n hs =
      .ok (((hs.zip (offsets.drop n)).filter (fun e => e.1 = hash)).map Prod.snd) := by
  induction hs generalizing n with
  | nil => rfl
  | cons h hs ih =>
    have hn : n < offsets.length := by simp at hlen; omega
    rw [List.drop_eq_getElem_cons hn, List.zip_cons_cons]
    unfold collect
    rw [List.getElem?_eq_getElem hn, ih (n + 1) (by simp at hlen; omega)]
    by_cases hh : h = hash <;> simp [hh, Except.map]

/-- `get` in a bucket of equal-length vectors returns the offsets stored under the hash. -/
theorem getHash_eq {t : MemTable} {hash : UInt32} {n : Nat} (hn : bucketNumber t hash = .ok n)
    (hlen : ∀ b, t.buckets[n]? = some (some b) → b.hashes.length = b.offsets.length) :
    getHash t hash = .ok (((Bucket.entries (t.buckets[n]?).join).filter (fun e => e.1 = hash)).map
      Prod.snd) := by
  simp only [getHash, hn, bind, Except.bind]
  rcases hb : t.buckets[n]? with _ | _ | b
  · rfl
  · rfl
  · show collect hash b.offsets 0 b.hashes = _
    rw [collect_eq _ _ _ _ (by rw [hlen b hb]; simp)]
    rfl

/-! ## Loading -/

/-- The loop of `load` over the bucket iterator, from slot `n`: each valid bucket pointer maps to
its slot, a later slot replacing an earlier one as `HashMap::insert` does. -/
def offsetToBucketFrom (m : Nat → Option Nat) : Nat → List Nat → Nat → Option Nat
  | _, [] => m
  | n, bucket :: rest =>
    offsetToBucketFrom
      (if Offset.isValid bucket then fun o => if o = bucket then some n else m o else m) (n + 1) rest

/-- `offset_to_bucket` of `load`. -/
def offsetToBucket (ptrs : List Nat) : Nat → Option Nat := offsetToBucketFrom (fun _ => none) 0 ptrs

/-- The bucket of a slot after `load` puts the links of a record in front of it; a slot without
bucket gets `Bucket::default()` first. -/
def Bucket.push (links : List (UInt32 × Nat)) (bucket : Option Bucket) : Bucket :=
  let b := bucket.getD ⟨[], []⟩
  ⟨links.map (fun e => e.1) ++ b.hashes, links.map (fun e => e.2) ++ b.offsets⟩

/-- The loop of `load` over the link records `(self_offset, links)`: the links of a record whose
offset is a bucket pointer go in front of its slot's bucket. -/
def loadLinks (offsetToBucket : Nat → Option Nat) :
    List (Option Bucket) → List (Nat × List (UInt32 × Nat)) → Except String (List (Option Bucket))
  | buckets, [] => .ok buckets
  | buckets, (selfOffset, links) :: records =>
    match offsetToBucket selfOffset with
    | none => loadLinks offsetToBucket buckets records
    | some bucketIndex =>
      match buckets[bucketIndex]? with
      | none => .error "called Option::unwrap() on a None value"
      | some bucket =>
        loadLinks offsetToBucket (buckets.set bucketIndex (some (Bucket.push links bucket))) records

/-- `MemTable::load`, from the bucket pointers and the link records the iterators yield. -/
def load (t : MemTable) (ptrs : List Nat) (records : List (Nat × List (UInt32 × Nat))) :
    Except String MemTable := do
  let buckets ← loadLinks (offsetToBucket ptrs) t.buckets records
  pure { t with buckets }

/-- Whether slot `n` holds the valid bucket pointer `o`. -/
def slotHolds (ptrs : List Nat) (n o : Nat) : Prop := ptrs[n]? = some o ∧ Offset.isValid o = true

instance (ptrs : List Nat) (n o : Nat) : Decidable (slotHolds ptrs n o) :=
  inferInstanceAs (Decidable (_ ∧ _))

theorem slotHolds_lt {ptrs : List Nat} {n o : Nat} (h : slotHolds ptrs n o) : n < ptrs.length :=
  (List.getElem?_eq_some_iff.mp h.1).1

/-- Pairwise distinct pointers are pairwise distinct valid pointers. -/
theorem slotHolds_inj_of_nodup {ptrs : List Nat} (hnd : ptrs.Nodup) :
    ∀ i i' o, slotHolds ptrs i o → slotHolds ptrs i' o → i = i' :=
  fun _ _ _ h h' => List.getElem?_inj (slotHolds_lt h) hnd (h.1.trans h'.1.symm)

@[simp] theorem slotHolds_nil (n o : Nat) : ¬ slotHolds [] n o := by simp [slotHolds]

@[simp] theorem slotHolds_cons_zero {b o : Nat} {ptrs : List Nat} :
    slotHolds (b :: ptrs) 0 o ↔ b = o ∧ Offset.isValid o = true := by
  simp [slotHolds]

@[simp] theorem slotHolds_cons_succ {b o i : Nat} {ptrs : List Nat} :
    slotHolds (b :: ptrs) (i + 1) o ↔ slotHolds ptrs i o := by
  simp [slotHolds]

/-- The links of the records attached to slot `n`, latest record first. -/
def slotLinks (ptrs : List Nat) (records : List (Nat × List (UInt32 × Nat))) (n : Nat) :
    List (UInt32 × Nat) :=
  (records.reverse.filter (fun r => slotHolds ptrs n r.1)).flatMap Prod.snd

theorem offsetToBucketFrom_some {m : Nat → Option Nat} {j : Nat} {ptrs : List Nat} {o k : Nat}
    (h : offsetToBucketFrom m j ptrs o = some k) :
    (∃ i, slotHolds ptrs i o ∧ k = j + i) ∨ m o = some k := by
  induction ptrs generalizing m j with
  | nil => exact Or.inr h
  | cons b ptrs ih =>
    rcases ih h with ⟨i, hi, rfl⟩ | hm
    · exact Or.inl ⟨i + 1, slotHolds_cons_succ.mpr hi, by omega⟩
    · by_cases hv : Offset.isValid b
      · by_cases hob : o = b
        · subst hob
          simp only [hv, if_true] at hm
          exact Or.inl ⟨0, slotHolds_cons_zero.mpr ⟨rfl, hv⟩, by simpa using hm.symm⟩
        · simp only [hv, hob, if_true, if_false] at hm
          exact Or.inr hm
      · simp only [hv] at hm
        exact Or.inr hm

theorem offsetToBucketFrom_of_not {m : Nat → Option Nat} {j : Nat} {ptrs : List Nat} {o : Nat}
    (h : ∀ i, ¬ slotHolds ptrs i o) : offsetToBucketFrom m j ptrs o = m o := by
  induction ptrs generalizing m j with
  | nil => rfl
  | cons b ptrs ih =>
    rw [offsetToBucketFrom, ih (fun i hi => h (i + 1) (slotHolds_cons_succ.mpr hi))]
    by_cases hv : Offset.isValid b
    · by_cases hob : o = b
      · subst hob; exact absurd (slotHolds_cons_zero.mpr ⟨rfl, hv⟩) (h 0)
      · simp [hv, hob]
    · simp [hv]

/-- The slot of the last occurrence of a valid pointer is what `offset_to_bucket` maps it to. -/
theorem offsetToBucketFrom_of_last {m : Nat → Option Nat} {j : Nat} {ptrs : List Nat} {o i : Nat}
    (h : slotHolds ptrs i o) (hlast : ∀ i', slotHolds ptrs i' o → i' ≤ i) :
    offsetToBucketFrom m j ptrs o = some (j + i) := by
  induction ptrs generalizing m j i with
  | nil => simp at h
  | cons b ptrs ih =>
    cases i with
    | zero =>
      obtain ⟨rfl, hv⟩ := slotHolds_cons_zero.mp h
      rw [offsetToBucketFrom, offsetToBucketFrom_of_not (fun i' hi' => by
        have := hlast (i' + 1) (slotHolds_cons_succ.mpr hi'); omega)]
      simp [hv]
    | succ i =>
      rw [offsetToBucketFrom, ih (slotHolds_cons_succ.mp h) (fun i' hi' => by
        have := hlast (i' + 1) (slotHolds_cons_succ.mpr hi'); omega)]
      congr 1; omega

section Distinct

variable {ptrs : List Nat} (hdist : ∀ i i' o, slotHolds ptrs i o → slotHolds ptrs i' o → i = i')
include hdist

/-- With pairwise distinct valid pointers, `offset_to_bucket` maps each to its slot. -/
theorem offsetToBucket_eq_some_iff {o n : Nat} :
    offsetToBucket ptrs o = some n ↔ slotHolds ptrs n o := by
  constructor
  · intro h
    rcases offsetToBucketFrom_some h with ⟨i, hi, rfl⟩ | h
    · simpa using hi
    · cases h
  · intro h
    simpa using offsetToBucketFrom_of_last (m := fun _ => none) (j := 0) h
      (fun i' hi' => (hdist _ _ _ hi' h).le)

theorem offsetToBucket_eq_none_iff {o : Nat} :
    offsetToBucket ptrs o = none ↔ ∀ n, ¬ slotHolds ptrs n o := by
  constructor
  · intro h n hn
    rw [(offsetToBucket_eq_some_iff hdist).mpr hn] at h
    cases h
  · intro h
    exact offsetToBucketFrom_of_not h

end Distinct

@[simp] theorem slotLinks_nil (ptrs : List Nat) (n : Nat) : slotLinks ptrs [] n = [] := rfl

theorem slotLinks_cons (ptrs : List Nat) (o : Nat) (links : List (UInt32 × Nat))
    (records : List (Nat × List (UInt32 × Nat))) (n : Nat) :
    slotLinks ptrs ((o, links) :: records) n =
      slotLinks ptrs records n ++ if slotHolds ptrs n o then links else [] := by
  unfold slotLinks
  rw [List.reverse_cons, List.filter_append, List.flatMap_append]
  by_cases h : slotHolds ptrs n o <;> simp [h]

/-- The links of a record go in front of the entries of the slot's bucket. -/
theorem entries_push (links : List (UInt32 × Nat)) (bucket : Option Bucket) :
    Bucket.entries (some (Bucket.push links bucket)) = links ++ Bucket.entries bucket := by
  have hzip : (links.map (fun e => e.1)).zip (links.map (fun e => e.2)) = links := by
    simpa [List.unzip_eq_map] using List.zip_unzip links
  rw [Bucket.entries, Bucket.push, List.zip_append (by simp), hzip]
  cases bucket <;> rfl

/-- The invariant of the link loop of `load`: equal-length vectors in every bucket. -/
def BucketsWf (buckets : List (Option Bucket)) : Prop :=
  ∀ (n : Nat) (b : Bucket), buckets[n]? = some (some b) → b.hashes.length = b.offsets.length

theorem push_wf (links : List (UInt32 × Nat)) {bucket : Option Bucket}
    (h : ∀ b, bucket = some b → b.hashes.length = b.offsets.length) :
    (Bucket.push links bucket).hashes.length = (Bucket.push links bucket).offsets.length := by
  cases bucket with
  | none => simp [Bucket.push]
  | some b => simp [Bucket.push, h b rfl]

theorem bucketsWf_set {buckets : List (Option Bucket)} (hwf : BucketsWf buckets) (k : Nat)
    {b : Bucket} (hb : b.hashes.length = b.offsets.length) : BucketsWf (buckets.set k (some b)) := by
  intro n b' hn
  rw [List.getElem?_set] at hn
  split_ifs at hn
  · cases hn; exact hb
  · exact hwf n b' hn

/-- The link loop of `load`, with the valid bucket pointers pairwise distinct and each below the
bucket count: it never panics, keeps the vectors of each bucket of equal length, and puts the
links of the records attached to a slot, latest first, in front of the slot's bucket. -/
theorem loadLinks_eq {ptrs : List Nat}
    (hdist : ∀ i i' o, slotHolds ptrs i o → slotHolds ptrs i' o → i = i')
    (records : List (Nat × List (UInt32 × Nat))) {buckets : List (Option Bucket)}
    (hlt : ∀ n o, slotHolds ptrs n o → n < buckets.length) (hwf : BucketsWf buckets) :
    ∃ buckets', loadLinks (offsetToBucket ptrs) buckets records = .ok buckets' ∧
      buckets'.length = buckets.length ∧ BucketsWf buckets' ∧
      ∀ n, Bucket.entries buckets'[n]?.join =
        slotLinks ptrs records n ++ Bucket.entries buckets[n]?.join := by
  induction records generalizing buckets with
  | nil => exact ⟨buckets, rfl, rfl, hwf, fun n => rfl⟩
  | cons r records ih =>
    obtain ⟨o, links⟩ := r
    cases hk : offsetToBucket ptrs o with
    | none =>
      have hno := (offsetToBucket_eq_none_iff hdist).mp hk
      obtain ⟨buckets', hload, hlen, hwf', hent⟩ := ih hlt hwf
      refine ⟨buckets', by rw [loadLinks, hk]; exact hload, hlen, hwf', fun n => ?_⟩
      rw [hent, slotLinks_cons, if_neg (hno n), List.append_nil]
    | some k =>
      have hkh := (offsetToBucket_eq_some_iff hdist).mp hk
      have hkl := hlt k o hkh
      have hwfk : (Bucket.push links buckets[k]).hashes.length =
          (Bucket.push links buckets[k]).offsets.length :=
        push_wf links fun b hb => hwf k b (by rw [List.getElem?_eq_getElem hkl, hb])
      obtain ⟨buckets', hload, hlen, hwf', hent⟩ :=
        ih (by simpa using hlt) (bucketsWf_set hwf k hwfk)
      refine ⟨buckets', ?_, by simpa using hlen, hwf', fun n => ?_⟩
      · rw [loadLinks, hk]
        simp only [List.getElem?_eq_getElem hkl]
        exact hload
      · rw [hent, slotLinks_cons, List.getElem?_set]
        by_cases hkn : k = n
        · subst hkn
          rw [if_pos hkh, if_pos rfl, if_pos hkl]
          show _ ++ Bucket.entries (some (Bucket.push links buckets[k])) = _
          rw [entries_push, List.getElem?_eq_getElem hkl, List.append_assoc]
          rfl
        · rw [if_neg (fun h => hkn (hdist _ _ _ hkh h)), if_neg hkn, List.append_nil]

/-! ## `new` and `load`, then `get` -/

/-- `load` on a table from `new` runs the link loop over empty buckets. -/
theorem load_new (step buckets logMod : UInt32) (ptrs : List Nat)
    (records : List (Nat × List (UInt32 × Nat))) :
    (new step buckets logMod).load ptrs records =
      (loadLinks (offsetToBucket ptrs) (List.replicate buckets.toNat none) records).map
        fun b => ⟨step, logMod, b⟩ := by
  unfold load new
  cases loadLinks (offsetToBucket ptrs) (List.replicate buckets.toNat none) records <;> rfl

theorem bucketsWf_replicate_none (n : Nat) : BucketsWf (List.replicate n none) := by
  intro k b hb
  simp [List.getElem?_replicate] at hb

@[simp] theorem entries_replicate_none (n k : Nat) :
    Bucket.entries (List.replicate n (none : Option Bucket))[k]?.join = [] := by
  rw [List.getElem?_replicate]
  split_ifs <;> rfl

/-- `MemTable::new` followed by `load`, with the valid bucket pointers pairwise distinct and at slots
below `buckets`: `load` never panics, and every bucket holds as many hashes as offsets, zipped to
the links of the records attached to its slot, latest record first. -/
theorem load_buckets (step buckets logMod : UInt32) (ptrs : List Nat)
    (records : List (Nat × List (UInt32 × Nat)))
    (hlt : ∀ n o, slotHolds ptrs n o → n < buckets.toNat)
    (hdist : ∀ i i' o, slotHolds ptrs i o → slotHolds ptrs i' o → i = i') :
    ∃ t, (new step buckets logMod).load ptrs records = .ok t ∧ t.step = step ∧
      t.logMod = logMod ∧ t.buckets.length = buckets.toNat ∧ BucketsWf t.buckets ∧
      ∀ n, Bucket.entries t.buckets[n]?.join = slotLinks ptrs records n := by
  obtain ⟨b, hload, hlen, hwf, hent⟩ :=
    loadLinks_eq hdist records (by simpa using hlt) (bucketsWf_replicate_none _)
  refine ⟨⟨step, logMod, b⟩, by rw [load_new, hload]; rfl, rfl, rfl, by simpa using hlen, hwf,
    fun n => ?_⟩
  rw [hent n, entries_replicate_none, List.append_nil]

/-- `load_buckets` for two slots and three link records, two of them attached to slot `0`. -/
theorem load_buckets_two_slots :
    (∀ n o, slotHolds [10, 20] n o → n < (2 : UInt32).toNat) ∧
      (∀ i i' o, slotHolds [10, 20] i o → slotHolds [10, 20] i' o → i = i') ∧
      ∃ t, (new 0 2 1).load [10, 20] [(10, [(4, 100)]), (20, [(5, 200)]), (10, [(6, 300)])] =
        .ok t ∧ t.step = 0 ∧ t.logMod = 1 ∧ t.buckets.length = (2 : UInt32).toNat ∧
        BucketsWf t.buckets ∧ ∀ n, Bucket.entries t.buckets[n]?.join =
          slotLinks [10, 20] [(10, [(4, 100)]), (20, [(5, 200)]), (10, [(6, 300)])] n := by
  have hlt : ∀ n o, slotHolds [10, 20] n o → n < (2 : UInt32).toNat :=
    fun _ _ h => slotHolds_lt h
  have hdist := slotHolds_inj_of_nodup (show [10, 20].Nodup by decide)
  exact ⟨hlt, hdist, load_buckets 0 2 1 [10, 20] _ hlt hdist⟩

/-- After `new` and `load`, for `1 ≤ log_mod < 32`, `get` returns the offsets stored under the
key's hash in the records attached to the slot the hash selects, latest record first. -/
theorem get_after_load (step buckets logMod : UInt32) (ptrs : List Nat)
    (records : List (Nat × List (UInt32 × Nat)))
    (hlt : ∀ n o, slotHolds ptrs n o → n < buckets.toNat)
    (hdist : ∀ i i' o, slotHolds ptrs i o → slotHolds ptrs i' o → i = i')
    (h0 : 0 < logMod.toNat) (h32 : logMod.toNat < 32) (hash : List UInt8 → UInt32) :
    ∃ t, (new step buckets logMod).load ptrs records = .ok t ∧ ∀ key, t.get hash key =
      .ok (((slotLinks ptrs records (linearBucket logMod.toNat step.toNat (hash key).toNat)).filter
        (fun e => e.1 = hash key)).map Prod.snd) := by
  obtain ⟨b, hload, -, hwf, hent⟩ :=
    loadLinks_eq hdist records (by simpa using hlt) (bucketsWf_replicate_none _)
  refine ⟨⟨step, logMod, b⟩, by rw [load_new, hload]; rfl, fun key => ?_⟩
  rw [get, getHash_eq (bucketNumber_eq_linearBucket ⟨step, logMod, b⟩ (hash key) h0 h32) (hwf _),
    hent, entries_replicate_none, List.append_nil]

/-- `get_after_load` for two slots and three link records, two of them attached to slot `0`. -/
theorem get_after_load_two_slots :
    (∀ n o, slotHolds [10, 20] n o → n < (2 : UInt32).toNat) ∧
      (∀ i i' o, slotHolds [10, 20] i o → slotHolds [10, 20] i' o → i = i') ∧
      0 < (1 : UInt32).toNat ∧ (1 : UInt32).toNat < 32 ∧
      ∃ t, (new 0 2 1).load [10, 20] [(10, [(4, 100)]), (20, [(5, 200)]), (10, [(6, 300)])] =
        .ok t ∧ ∀ key, t.get (fun _ => 4) key =
          .ok (((slotLinks [10, 20] [(10, [(4, 100)]), (20, [(5, 200)]), (10, [(6, 300)])]
            (linearBucket (1 : UInt32).toNat (0 : UInt32).toNat (4 : UInt32).toNat)).filter
              (fun e => e.1 = 4)).map Prod.snd) := by
  have hlt : ∀ n o, slotHolds [10, 20] n o → n < (2 : UInt32).toNat :=
    fun _ _ h => slotHolds_lt h
  have hdist := slotHolds_inj_of_nodup (show [10, 20].Nodup by decide)
  exact ⟨hlt, hdist, by decide, by decide,
    get_after_load 0 2 1 [10, 20] _ hlt hdist (by decide) (by decide) (fun _ => 4)⟩

/-- At `log_mod = 0`, after `new(0, 1, 0, ..)` and a `load` that attaches nothing, `get` panics in
a debug build for every key: `!0u32 >> (32 - 0)` shifts by 32. -/
theorem get_log_mod_zero (hash : List UInt8 → UInt32) (key : List UInt8) :
    (new 0 1 0).load [PRef.invalid] [] = .ok ⟨0, 0, [none]⟩ ∧
      MemTable.get ⟨0, 0, [none]⟩ hash key = .error "attempt to shift right with overflow" :=
  ⟨rfl, rfl⟩

end MemTable

end Hammersbald
