import Hammersbald.DataFile.Termination

/-!
# The data iterator decodes the payload stream

`DataIterator::next` reads its pages one payload at a time and moves to the next page wherever a
payload ends, in `skip_padding` and in each `read_slice`.  This module states what it computes
without pages: `decodeStream` reads the payloads as one byte sequence, an entry at a time, and the
page-wise iterator yields exactly its entries, whatever bytes the pages hold.

* `decodeOne` is one entry of the flat stream: padding bytes are skipped, then come a type byte,
  three big-endian length bytes and that many content bytes.  A stream that ends before the
  length or the content has no entry.  `decodeStream` repeats it.
* `readEntry_of_decodeOne_some` and `readEntry_of_decodeOne_none`: the body of `next`, on a page
  whose stream is `s`, reads the entry `decodeOne s` reads and leaves the rest of the stream, or
  returns `None` with no page left.
* `nexts_new_decodeStream`: `DataFile::data_iter` over any pages yields the entries
  `decodeStream` reads from the payload stream after the magic bytes, in order, and then only
  `None`.
* `decodeStream_encodings`: the flat decoder reads back the entries of their encodings, and
  `nexts_new_encodings` puts the two together for pages that hold encodings and then padding.
-/

namespace Hammersbald.DataIterator

/-! ## The flat decoder -/

/-- A byte `skip_padding` passes over. -/
def isPadding (b : UInt8) : Bool := DataType.fromU8 b = .padding

/-- The first entry of a byte stream and the stream after it: padding bytes are skipped, then a
type byte, a three-byte big-endian length and that many content bytes.  A stream that ends first
has no entry. -/
def decodeOne (s : List UInt8) : Option (DataEntry × List UInt8) :=
  match s.dropWhile isPadding with
  | [] => none
  | b :: rest =>
    if 3 + U24.fromSlice (rest.take 3) ≤ rest.length then
      some (⟨DataType.fromU8 b, (rest.drop 3).take (U24.fromSlice (rest.take 3))⟩,
        (rest.drop 3).drop (U24.fromSlice (rest.take 3)))
    else none

theorem decodeOne_length_lt {s rest : List UInt8} {e : DataEntry}
    (h : decodeOne s = some (e, rest)) : rest.length < s.length := by
  have hle := (List.dropWhile_suffix isPadding (l := s)).length_le
  unfold decodeOne at h
  split at h
  · cases h
  · rename_i b r hd
    split_ifs at h
    cases h
    rw [hd, List.length_cons] at hle
    simp only [List.length_drop]
    omega

/-- The entries of a byte stream, one `decodeOne` after another. -/
def decodeStream (s : List UInt8) : List DataEntry :=
  match hd : decodeOne s with
  | none => []
  | some (e, rest) =>
    have : rest.length < s.length := decodeOne_length_lt hd
    e :: decodeStream rest
termination_by s.length

theorem decodeStream_of_none {s : List UInt8} (h : decodeOne s = none) : decodeStream s = [] := by
  rw [decodeStream]
  split <;> simp_all

theorem decodeStream_of_some {s rest : List UInt8} {e : DataEntry}
    (h : decodeOne s = some (e, rest)) : decodeStream s = e :: decodeStream rest := by
  rw [decodeStream]
  split <;> simp_all

/-- A stream split at its first byte that is not padding. -/
theorem eq_of_dropWhile_isPadding {s r : List UInt8} {b : UInt8}
    (h : s.dropWhile isPadding = b :: r) :
    s = s.takeWhile isPadding ++ b :: r ∧
      (∀ x ∈ s.takeWhile isPadding, DataType.fromU8 x = .padding) ∧
      DataType.fromU8 b ≠ .padding := by
  have hb := List.head?_dropWhile_not isPadding s
  rw [h] at hb
  refine ⟨by rw [← h, List.takeWhile_append_dropWhile], fun x hx => ?_, ?_⟩
  · simpa [isPadding] using List.mem_takeWhile_imp hx
  · simpa [isPadding] using hb

/-! ## One entry -/

/-- When `decodeOne` finds an entry, the body of `next` reads it and leaves the rest of the
stream. -/
theorem readEntry_of_decodeOne_some {pages : List Page} {pg : Page} {pos : Nat}
    {rest : List UInt8} {e : DataEntry}
    (hd : decodeOne (pg.payload.drop pos ++ payloads pages) = some (e, rest)) :
    (readEntry pages pg pos).1 = some e ∧ Reads (readEntry pages pg pos).2 rest := by
  unfold decodeOne at hd
  split at hd
  · cases hd
  rename_i b r hdrop
  split_ifs at hd with hfit
  cases hd
  obtain ⟨hs, hpad, hb⟩ := eq_of_dropWhile_isPadding hdrop
  have h3 : (r.take 3).length = 3 := by simp; omega
  have hL : ((r.drop 3).take (U24.fromSlice (r.take 3))).length = U24.fromSlice (r.take 3) := by
    simp; omega
  have h' : pg.payload.drop pos ++ payloads pages =
      (pg.payload.drop pos ++ payloads pages).takeWhile isPadding ++ b :: (r.take 3 ++
        ((r.drop 3).take (U24.fromSlice (r.take 3)) ++ (r.drop 3).drop (U24.fromSlice (r.take 3)))) := by
    rw [List.take_append_drop, List.take_append_drop]; exact hs
  obtain ⟨h₁, pg₁, hc₁, hr₁⟩ := skipPadding_eq h' hpad hb
  obtain ⟨h₂, pg₂, hc₂, hr₂⟩ := readSlice_eq hr₁
  obtain ⟨h₃, h₄⟩ := readSlice_eq hr₂
  simp only [h3] at h₂ hc₂ hr₂ h₃ h₄
  simp only [hL] at h₃ h₄
  unfold readEntry
  rw [← Prod.mk.eta (p := skipPadding _ _ _), h₁]
  dsimp only
  rw [hc₁, ← Prod.mk.eta (p := readSlice _ _ _ _), h₂]
  dsimp only
  rw [hc₂, ← Prod.mk.eta (p := readSlice _ _ _ _), h₃]
  exact ⟨rfl, h₄⟩

/-- When `decodeOne` finds no entry, the body of `next` returns `None` with no page left. -/
theorem readEntry_of_decodeOne_none {pages : List Page} {pg : Page} {pos : Nat}
    (hd : decodeOne (pg.payload.drop pos ++ payloads pages) = none) :
    readEntry pages pg pos = (none, ⟨[], none, 0⟩) := by
  suffices h : (readEntry pages pg pos).1 = none by
    rcases readEntry_cases pages pg pos with h' | ⟨e, it, h', -⟩
    · exact h'
    · rw [h'] at h; cases h
  unfold decodeOne at hd
  split at hd
  · rename_i hdrop
    exact readEntry_of_padding fun x hx => by
      simpa [isPadding] using List.dropWhile_eq_nil_iff.mp hdrop x hx
  rename_i b r hdrop
  split_ifs at hd with hfit
  obtain ⟨hs, hpad, hb⟩ := eq_of_dropWhile_isPadding hdrop
  by_cases hr : r.length < 3
  · obtain ⟨h₁, pg₁, hc₁, hr₁⟩ := skipPadding_eq hs hpad hb
    unfold readEntry
    rw [← Prod.mk.eta (p := skipPadding _ _ _), h₁]
    dsimp only
    rw [hc₁, readSlice_of_short (by rw [hr₁]; exact hr)]
  · have h' : pg.payload.drop pos ++ payloads pages =
        (pg.payload.drop pos ++ payloads pages).takeWhile isPadding ++
          b :: (r.take 3 ++ r.drop 3) := by
      rw [List.take_append_drop]; exact hs
    rw [readEntry_of_length_past_end h' hpad hb (by simp; omega) (by simp at hfit ⊢; omega)]

/-! ## The whole stream -/

/-- From a page whose stream is `s`, the iterator yields the entries of `decodeStream s` and then
only `None`. -/
theorem nexts_of_reads_decodeStream (s : List UInt8) :
    ∀ (it : DataIterator), Reads it s → ∀ k,
      nexts ((decodeStream s).length + 1 + k) it =
        (decodeStream s).map some ++ List.replicate (k + 1) none := by
  induction s using decodeStream.induct with
  | case1 s hd =>
    rintro ⟨pages, _, pos⟩ ⟨pg, rfl, rfl⟩ k
    rw [decodeStream_of_none hd, List.length_nil, show 0 + 1 + k = k + 1 by omega, nexts,
      next_of_current, readEntry_of_decodeOne_none hd, nexts_exhausted]
    rfl
  | case2 s e rest hd _ ih =>
    rintro ⟨pages, _, pos⟩ ⟨pg, rfl, rfl⟩ k
    obtain ⟨h₁, h₂⟩ := readEntry_of_decodeOne_some hd
    rw [decodeStream_of_some hd, List.length_cons,
      show (decodeStream rest).length + 1 + 1 + k = (decodeStream rest).length + 1 + k + 1 by omega,
      nexts, next_of_current, h₁, ih _ h₂ k]
    rfl

/-- `data_iter` over pages `pg :: pages` yields the entries `decodeStream` reads from the payload
of `pg` after the magic bytes and then the other payloads, and then only `None`. -/
theorem nexts_new_cons (pg : Page) (pages : List Page) (k : Nat) :
    nexts ((decodeStream (pg.payload.drop 2 ++ payloads pages)).length + 1 + k)
        (new (pg :: pages)) =
      (decodeStream (pg.payload.drop 2 ++ payloads pages)).map some ++
        List.replicate (k + 1) none := by
  rw [← nexts_of_reads_decodeStream _ ⟨pages, some pg, 2⟩ ⟨pg, rfl, rfl⟩ k, Nat.add_right_comm]
  rfl

/-- `DataFile::data_iter` over any pages, whatever bytes they hold, yields the entries
`decodeStream` reads from their payload stream after the two magic bytes, in order, and then
only `None`. -/
theorem nexts_new_decodeStream (pages : List Page) (k : Nat) :
    nexts ((decodeStream ((payloads pages).drop 2)).length + 1 + k) (new pages) =
      (decodeStream ((payloads pages).drop 2)).map some ++ List.replicate (k + 1) none := by
  cases pages with
  | nil =>
    have hd : decodeStream ((payloads []).drop 2) = [] := by
      rw [payloads_nil, List.drop_nil]
      exact decodeStream_of_none rfl
    rw [hd, List.length_nil, show 0 + 1 + k = k + 1 by omega]
    exact nexts_exhausted (k + 1) 0
  | cons pg pages =>
    rw [payloads_cons, List.drop_append_of_le_length (by simp; decide)]
    exact nexts_new_cons pg pages k

/-! ## Encoded entries -/

/-- Padding bytes before a stream are skipped. -/
theorem decodeOne_padding_append {pad : List UInt8} (s : List UInt8)
    (hpad : ∀ x ∈ pad, DataType.fromU8 x = .padding) : decodeOne (pad ++ s) = decodeOne s := by
  unfold decodeOne
  rw [List.dropWhile_append_of_pos fun x hx => by simp [isPadding, hpad x hx]]

theorem decodeStream_padding_append {pad : List UInt8} (s : List UInt8)
    (hpad : ∀ x ∈ pad, DataType.fromU8 x = .padding) :
    decodeStream (pad ++ s) = decodeStream s := by
  have h := decodeOne_padding_append s hpad
  rcases hs : decodeOne s with _ | ⟨e, rest⟩
  · rw [decodeStream_of_none (h.trans hs), decodeStream_of_none hs]
  · rw [decodeStream_of_some (h.trans hs), decodeStream_of_some hs]

/-- An entry not of type padding, shorter than `2^24` bytes, is the first entry of a stream that
starts with its encoding. -/
theorem decodeOne_encode {e : DataEntry} (ht : e.dataType ≠ .padding)
    (hc : e.content.length < 2 ^ 24) (rest : List UInt8) :
    decodeOne (e.encode ++ rest) = some (e, rest) := by
  have hsize : U24.fromSlice (U24.serialize e.content.length) = e.content.length :=
    decodeBE_encodeBE_of_lt hc
  have h3 : (U24.serialize e.content.length).length = 3 := length_encodeBE 3 _
  have hnp : isPadding e.dataType.toU8 = false := by simpa [isPadding] using ht
  have hdrop : (e.encode ++ rest).dropWhile isPadding =
      e.dataType.toU8 :: (U24.serialize e.content.length ++ e.content ++ rest) :=
    List.dropWhile_cons_of_neg (by rw [hnp]; decide)
  unfold decodeOne
  rw [hdrop]
  dsimp only
  rw [List.append_assoc, List.take_left' h3, List.drop_left' h3, hsize,
    if_pos (by simp only [List.length_append, h3]; omega), List.take_left' rfl, List.drop_left' rfl,
    DataType.fromU8_toU8]

/-- The flat decoder reads back the entries of their encodings, padding bytes after them aside. -/
theorem decodeStream_encodings {es : List DataEntry} {pad : List UInt8}
    (hpad : ∀ x ∈ pad, DataType.fromU8 x = .padding)
    (hes : ∀ e ∈ es, e.dataType ≠ .padding ∧ e.content.length < 2 ^ 24) :
    decodeStream ((es.map DataEntry.encode).flatten ++ pad) = es := by
  induction es with
  | nil =>
    refine decodeStream_of_none ?_
    rw [List.map_nil, List.flatten_nil, List.nil_append, ← List.append_nil pad,
      decodeOne_padding_append _ hpad]
    rfl
  | cons e es ih =>
    have he := hes e (List.mem_cons_self e es)
    rw [List.map_cons, List.flatten_cons, List.append_assoc,
      decodeStream_of_some (decodeOne_encode he.1 he.2 _),
      ih fun e' he' => hes e' (List.mem_cons_of_mem e he')]

/-- `DataFile::data_iter` over pages whose payloads are the magic bytes, the encodings of `es` and
then padding yields exactly `es`, in order, and then only `None`. -/
theorem nexts_new_encodings {pages : List Page} {es : List DataEntry} {pad : List UInt8}
    (hs : payloads pages = [0xBC, 0xDA] ++ (es.map DataEntry.encode).flatten ++ pad)
    (hpad : ∀ x ∈ pad, DataType.fromU8 x = .padding)
    (hes : ∀ e ∈ es, e.dataType ≠ .padding ∧ e.content.length < 2 ^ 24) (k : Nat) :
    nexts (es.length + 1 + k) (new pages) = es.map some ++ List.replicate (k + 1) none := by
  cases pages with
  | nil => simp at hs
  | cons pg pages =>
    have hd : pg.payload.drop 2 ++ payloads pages = (es.map DataEntry.encode).flatten ++ pad := by
      have := congrArg (List.drop 2) hs
      rw [payloads_cons, List.drop_append_of_le_length (by simp; decide)] at this
      simpa using this
    have h := nexts_new_cons pg pages k
    rwa [hd, decodeStream_encodings hpad hes] at h

theorem nexts_new_one_entry :
    nexts 2 (new [(Page.new 0).write 0 [0xBC, 0xDA, 1, 0, 0, 1, 7]]) =
      [some ⟨.transactionOrAppData, [7]⟩, none] :=
  @nexts_new_encodings _ [⟨.transactionOrAppData, [7]⟩] (List.replicate 4083 0)
    (by rw [payloads_cons, payloads_nil, List.append_nil, Page.write_payload, Page.new,
        splice_replicate_zero _ _ (by decide)]; rfl)
    (fun x hx => by rw [List.eq_of_mem_replicate hx]; rfl) (by decide) 0

end Hammersbald.DataIterator
