import Mathlib.Data.List.Basic
import Mathlib.Algebra.Group.Nat.Basic

/-!
# Byte lists

Pages, files and records of Hammersbald are byte arrays, and two operations on byte lists recur
in every layer of the model.

* `splice l pos data` is `l[pos .. pos + data.len()].copy_from_slice(data)`: the bytes of `data`
  replace those of `l` from `pos` on, and the length of `l` stays.  `getElem?_splice` says which
  byte is where, and `take_drop_splice` reads the written slice back.
* `encodeBE k n` and `decodeBE` are the `k`-byte big-endian codec.  A `PRef` is six such bytes and
  the length field of a data-file entry three (`U24`).  `decodeBE_encodeBE` is the round trip.
-/

namespace Hammersbald

variable {α : Type}

/-! ## In-place writes -/

/-- `l[pos .. pos + data.len()].copy_from_slice(data)`.  The length of `l` is kept: a byte of
`data` that would land past the end of `l` is dropped.  Every caller in the model writes in
range, where Rust would otherwise panic. -/
def splice (l : List α) (pos : Nat) (data : List α) : List α :=
  (l.take pos ++ data ++ l.drop (pos + data.length)).take l.length

@[simp] theorem length_splice (l : List α) (pos : Nat) (data : List α) :
    (splice l pos data).length = l.length := by
  simp only [splice, List.length_take, List.length_append, List.length_drop]
  omega

/-- The byte at `i` after a write: from `data` inside the written range, from `l` outside. -/
theorem getElem?_splice (l : List α) (pos : Nat) (data : List α) (i : Nat) :
    (splice l pos data)[i]? =
      if i < l.length then
        (if pos ≤ i ∧ i < pos + data.length then data[i - pos]? else l[i]?)
      else none := by
  simp only [splice, List.getElem?_take]
  by_cases hi : i < l.length
  · simp only [hi, if_true]
    by_cases hp : i < pos
    · rw [List.append_assoc, List.getElem?_append_left (by simp; omega), List.getElem?_take,
        if_pos hp, if_neg (by omega)]
    · rw [List.append_assoc, List.getElem?_append_right (by simp; omega)]
      have htake : (l.take pos).length = pos := by simp; omega
      rw [htake]
      by_cases hd : i - pos < data.length
      · rw [List.getElem?_append_left hd, if_pos (by omega)]
      · rw [List.getElem?_append_right (by omega), List.getElem?_drop, if_neg (by omega)]
        congr 1
        omega
  · simp [hi]

/-- A write in range reads back as the written bytes. -/
theorem take_drop_splice (l : List α) (pos : Nat) (data : List α)
    (h : pos + data.length ≤ l.length) :
    ((splice l pos data).drop pos).take data.length = data := by
  apply List.ext_getElem?
  intro i
  rw [List.getElem?_take, List.getElem?_drop, getElem?_splice]
  by_cases hi : i < data.length
  · simp only [hi, if_true, show pos + i < l.length by omega, show pos ≤ pos + i by omega,
      show pos + i < pos + data.length by omega, and_self, Nat.add_sub_cancel_left]
  · simp only [hi, if_false]
    exact (List.getElem?_eq_none (by omega)).symm

@[simp] theorem splice_nil (l : List α) (pos : Nat) : splice l pos [] = l := by
  simp [splice]

/-- A write into a zero-filled tail, `g` bytes past its start. -/
theorem splice_replicate (x : List α) (z : α) {n g : Nat} (d : List α) (h : g + d.length ≤ n) :
    splice (x ++ List.replicate n z) (x.length + g) d =
      x ++ List.replicate g z ++ d ++ List.replicate (n - g - d.length) z := by
  have htake : (x ++ List.replicate n z).take (x.length + g) = x ++ List.replicate g z := by
    rw [List.take_append, List.take_replicate, Nat.min_eq_left (by omega)]
  have hdrop : (x ++ List.replicate n z).drop (x.length + g + d.length) =
      List.replicate (n - g - d.length) z := by
    rw [Nat.add_assoc, List.drop_append, List.drop_replicate, Nat.sub_sub]
  rw [splice, htake, hdrop, List.take_of_length_le (by simp; omega)]

/-- Writing `d` over the run of `z`s after `x`. -/
theorem splice_append_replicate (x : List α) (z : α) (d : List α) {n : Nat} (h : d.length ≤ n) :
    splice (x ++ List.replicate n z) x.length d = x ++ d ++ List.replicate (n - d.length) z := by
  simpa using splice_replicate x z d (n := n) (g := 0) (by omega)

/-- Writing `d` at the start of a run of `z`s. -/
theorem splice_replicate_zero (z : α) (d : List α) {n : Nat} (h : d.length ≤ n) :
    splice (List.replicate n z) 0 d = d ++ List.replicate (n - d.length) z := by
  simpa using splice_append_replicate [] z d h

/-! ## The big-endian codec -/

/-- The `k` low bytes of `n`, most significant first. -/
def encodeBE : Nat → Nat → List UInt8
  | 0, _ => []
  | k + 1, n => encodeBE k (n / 256) ++ [UInt8.ofNat (n % 256)]

/-- The number a big-endian byte string stands for. -/
def decodeBE (bytes : List UInt8) : Nat :=
  bytes.foldl (fun acc b => acc * 256 + b.toNat) 0

@[simp] theorem length_encodeBE (k n : Nat) : (encodeBE k n).length = k := by
  induction k generalizing n with
  | zero => rfl
  | succ k ih => simp [encodeBE, ih]

theorem decodeBE_append_singleton (bytes : List UInt8) (b : UInt8) :
    decodeBE (bytes ++ [b]) = decodeBE bytes * 256 + b.toNat := by
  simp [decodeBE, List.foldl_append]

/-- Decoding the `k` bytes of `n` gives `n` modulo `256 ^ k`. -/
theorem decodeBE_encodeBE (k n : Nat) : decodeBE (encodeBE k n) = n % 256 ^ k := by
  induction k generalizing n with
  | zero => simp [encodeBE, decodeBE, Nat.mod_one]
  | succ k ih =>
    have hb : (UInt8.ofNat (n % 256)).toNat = n % 256 :=
      UInt8.toNat_ofNat_of_lt (Nat.mod_lt n (by decide))
    rw [encodeBE, decodeBE_append_singleton, ih, hb, Nat.pow_succ, Nat.mul_comm (256 ^ k),
      Nat.mod_mul, Nat.add_comm, Nat.mul_comm]

/-- A value that fits in `k` bytes survives the round trip. -/
theorem decodeBE_encodeBE_of_lt {k n : Nat} (h : n < 256 ^ k) :
    decodeBE (encodeBE k n) = n := by
  rw [decodeBE_encodeBE, Nat.mod_eq_of_lt h]

end Hammersbald
