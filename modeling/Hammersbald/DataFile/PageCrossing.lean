import Hammersbald.DataFile.RoundTrip
import Hammersbald.DataFile.Stream

/-!
# Reading back entries across pages

`append_slice` leaves `gap` zero bytes in the stream after a slice that crosses into the next page
after some of its bytes.  Where they fall decides whether the file reads back.  A type byte is a
one-byte slice and never crosses.  After the content, the zero bytes are padding, which the reader
skips before the next type byte.  Only a length field that crosses puts zero bytes inside an entry
(the counterexample in `Hammersbald.DataFile.RoundTrip`).

* `laidOut_entrySlices`: an entry whose length field stays in one page lays out its encoding and
  then zero bytes.  `lengthFits` says that of every entry of a sequence.
* `appendAll_layout`: a sequence of entries keeps the layout of the writer and lays out
  `entriesLaidOut`.  `decodeStream_entriesLaidOut`: the flat decoder reads that stream back.
* `ReadsBack stored done`: pages at consecutive offsets whose stream reads back `done`;
  `ReadsBack.nexts` is what `data_iter` yields over them, and `readsBack_flush` what a flush adds.
* `appendAll_offsets_decode`: the offset `append` returns for an entry is, as an index into the
  payload stream, where the entry's encoding starts (`encode_prefix_drop_entryStarts`); decoding
  from there reads it and the entries after it.
* `appendAll_roundTrip`: entries appended to a fresh `DataFile` and flushed are read back by
  `data_iter`, in order and then only `None`, over as many pages as they take, if none is of type
  padding, none is longer than a payload, and no length field crosses a page boundary.
-/

namespace Hammersbald.DataFile

/-! ## What an entry lays out -/

/-- The in-page position after an entry written at in-page position `i`. -/
def entryEnd (i : Nat) (e : DataEntry) : Nat :=
  nextPos (nextPos (nextPos i 1) 3) e.content.length

/-- Whether the length field of every entry, written one after another from in-page position `i`,
stays in one page. -/
def lengthFits (i : Nat) : List DataEntry → Bool
  | [] => true
  | e :: es => gap (nextPos i 1) 3 == 0 && lengthFits (entryEnd i e) es

/-- The stream entries lay out from in-page position `i`, and the in-page position after them. -/
def entriesLaidOut (i : Nat) : List DataEntry → List UInt8 × Nat
  | [] => ([], i)
  | e :: es =>
    let r := entriesLaidOut (laidOut i (entrySlices e)).2 es
    ((laidOut i (entrySlices e)).1 ++ r.1, r.2)

/-- The stream index of each entry's type byte, for entries laid out from stream index `t` at
in-page position `i`. -/
def entryStarts (t i : Nat) : List DataEntry → List Nat
  | [] => []
  | e :: es => t :: entryStarts (t + (laidOut i (entrySlices e)).1.length) (entryEnd i e) es

theorem gap_one (i : Nat) : gap i 1 = 0 := by
  unfold gap; split_ifs <;> omega

theorem laidOut_entrySlices_snd (i : Nat) (e : DataEntry) :
    (laidOut i (entrySlices e)).2 = entryEnd i e := rfl

/-- An entry always ends past the start of a page. -/
theorem entryEnd_pos (i : Nat) (e : DataEntry) : 0 < entryEnd i e := by
  have hmax : PAYLOAD_MAX = 4090 := rfl
  unfold entryEnd nextPos
  split_ifs <;> omega

/-- With its length field inside one page, an entry lays out its encoding and then the zero bytes
`append_slice` leaves after its content. -/
theorem laidOut_entrySlices {i : Nat} {e : DataEntry} (h : gap (nextPos i 1) 3 = 0) :
    (laidOut i (entrySlices e)).1 =
      e.encode ++ List.replicate (gap (nextPos (nextPos i 1) 3) e.content.length) 0 := by
  have h3 : (U24.serialize e.content.length).length = 3 := length_encodeBE 3 _
  simp only [laidOut, entrySlices, List.length_singleton, h3, gap_one, h, List.replicate_zero,
    List.append_nil, List.nil_append, DataEntry.encode, List.cons_append, List.append_assoc]

/-! ## The writer -/

/-- `append_pos`, read as an index into the payload stream, is the number of bytes laid out. -/
theorem Layout.toStream_appendPos {df : DataFile} {cur : List UInt8} (hl : Layout df cur) :
    PRef.toStream df.appendPos = (payloads df.stored ++ cur).length := by
  have := hl.length_le
  rw [PRef.toStream, PRef.pageNumber, PRef.inPagePos, hl.appendPos_eq, List.length_append,
    length_payloads]
  unfold PAYLOAD_MAX PAGE_PAYLOAD_SIZE PAGE_SIZE at *
  omega

/-- Entries appended one after another, the first one after `start` has left the layout `cur₀`,
keep the layout and lay out `entriesLaidOut`. -/
theorem appendAll_layout {es : List DataEntry} :
    ∀ {e : DataEntry} {df df₀ : DataFile} {cur₀ : List UInt8}, df.start = .ok df₀ → Layout df₀ cur₀ →
      (∀ e' ∈ e :: es, e'.content.length ≤ PAYLOAD_MAX) →
      (df₀.stored.length + 3 * es.length + 4) * PAGE_SIZE < 2 ^ 48 →
      ∃ df' os cur', df.appendAll (e :: es) = .ok (df', df₀.appendPos :: os) ∧ Layout df' cur' ∧
        cur' ≠ [] ∧ cur'.length = (entriesLaidOut cur₀.length (e :: es)).2 ∧
        payloads df'.stored ++ cur' =
          payloads df₀.stored ++ cur₀ ++ (entriesLaidOut cur₀.length (e :: es)).1 ∧
        df'.stored.length ≤ df₀.stored.length + 3 * es.length + 3 ∧
        (df₀.appendPos :: os).map PRef.toStream =
          entryStarts (payloads df₀.stored ++ cur₀).length cur₀.length (e :: es) := by
  induction es with
  | nil =>
    intro e df df₀ cur₀ hs hl hc hlt
    obtain ⟨df₁, cur₁, h₁, hl₁, hc₁, hp₁, hn₁⟩ :=
      append_layout hs hl (hc e (List.mem_cons_self e [])) (by simpa using hlt)
    refine ⟨df₁, [], cur₁, by rw [appendAll, h₁]; rfl, hl₁,
      List.ne_nil_of_length_pos (hc₁ ▸ entryEnd_pos cur₀.length e), hc₁, ?_, by omega, ?_⟩
    · rw [hp₁]
      simp [entriesLaidOut]
    · rw [List.map_singleton, hl.toStream_appendPos]; rfl
  | cons e' es ih =>
    intro e df df₀ cur₀ hs hl hc hlt
    rw [List.length_cons] at hlt
    obtain ⟨df₁, cur₁, h₁, hl₁, hc₁, hp₁, hn₁⟩ :=
      append_layout hs hl (hc e (List.mem_cons_self _ _))
        (lt_of_le_of_lt (Nat.mul_le_mul_right _ (by omega)) hlt)
    have hcur₁ : 0 < cur₁.length := hc₁ ▸ entryEnd_pos cur₀.length e
    have hne : df₁.appendPos ≠ 0 := by rw [hl₁.appendPos_eq]; omega
    obtain ⟨df', os, cur', h', hl', hcur', hc', hp', hn', hos⟩ :=
      ih (start_of_appendPos hne) hl₁ (fun x hx => hc x (List.mem_cons_of_mem e hx))
        (lt_of_le_of_lt (Nat.mul_le_mul_right _ (by omega)) hlt)
    refine ⟨df', df₁.appendPos :: os, cur', ?_, hl', hcur', ?_, ?_, by rw [List.length_cons]; omega,
      ?_⟩
    · rw [appendAll, h₁]; simp only [bind, Except.bind]; rw [h']; rfl
    · rw [hc', hc₁]; rfl
    · rw [hp', hp₁, hc₁]
      simp only [entriesLaidOut, List.append_assoc]
    · rw [List.map_cons, hos, hp₁, hc₁, hl.toStream_appendPos]
      simp only [entryStarts, List.length_append, laidOut_entrySlices_snd]

theorem flush_stored {df : DataFile} {cur : List UInt8} (hl : Layout df cur) (hcur : cur ≠ []) :
    df.flush.stored = df.stored ++ [df.page] := by
  rw [flush, if_pos (by rw [hl.inPagePos_eq]; exact List.length_pos.mpr hcur)]

/-! ## The reader -/

theorem zeros_padding (n : Nat) : ∀ x ∈ List.replicate n (0 : UInt8), DataType.fromU8 x = .padding :=
  fun x hx => by rw [List.eq_of_mem_replicate hx]; rfl

/-- The flat decoder reads back entries whose length fields stay in one page, before whatever
follows them. -/
theorem decodeStream_entriesLaidOut {es : List DataEntry}
    (hes : ∀ e ∈ es, e.dataType ≠ .padding ∧ e.content.length ≤ PAYLOAD_MAX) :
    ∀ {i : Nat}, lengthFits i es = true → ∀ tail,
      DataIterator.decodeStream ((entriesLaidOut i es).1 ++ tail) =
        es ++ DataIterator.decodeStream tail := by
  induction es with
  | nil => intro i _ tail; rfl
  | cons e es ih =>
    intro i hfit tail
    simp only [lengthFits, Bool.and_eq_true, beq_iff_eq] at hfit
    have he := hes e (List.mem_cons_self e es)
    rw [entriesLaidOut, laidOut_entrySlices hfit.1, List.append_assoc, List.append_assoc,
      DataIterator.decodeStream_of_some (DataIterator.decodeOne_encode he.1
        (lt_of_le_of_lt he.2 (by decide)) _),
      DataIterator.decodeStream_padding_append _ (zeros_padding _), laidOut_entrySlices_snd,
      ih (fun e' he' => hes e' (List.mem_cons_of_mem e he')) hfit.2, List.cons_append]

/-- Pages at offsets `0, PAGE_SIZE, …` whose payload stream, after the two magic bytes, reads back
`done` before whatever follows it. -/
structure ReadsBack (stored : List Page) (done : List DataEntry) : Prop where
  offsets : stored.map Page.offset = (List.range stored.length).map (· * PAGE_SIZE)
  decode : ∀ tail, DataIterator.decodeStream ((payloads stored).drop 2 ++ tail) =
    done ++ DataIterator.decodeStream tail

/-- `data_iter` over such pages yields `done`, in order, and then only `None`. -/
theorem ReadsBack.nexts {df : DataFile} {done : List DataEntry} (h : ReadsBack df.stored done)
    (hn : df.stored.length ≤ 2 ^ 47 / PAGE_SIZE) (k : Nat) :
    df.dataIter.nexts (done.length + 1 + k) = done.map some ++ List.replicate (k + 1) none := by
  have h0 := h.decode []
  rw [List.append_nil, DataIterator.decodeStream_of_none (s := []) rfl, List.append_nil] at h0
  rw [dataIter, pageIter_readPage h.offsets hn, List.drop_zero]
  rcases hs : df.stored with _ | ⟨pg, pages⟩
  · rw [hs] at h0
    have hd : done = [] := by rw [← h0]; exact DataIterator.decodeStream_of_none rfl
    rw [hd, List.length_nil, Nat.zero_add, Nat.add_comm]
    exact DataIterator.nexts_exhausted (k + 1) 0
  · rw [hs, payloads_cons, List.drop_append_of_le_length (by simp; decide)] at h0
    have := DataIterator.nexts_new_cons pg pages k
    rwa [h0] at this

/-- A writer that started from pages reading back `done`, with `cur₀` in hand, and laid out the
entries `es` after them reads back `done` and then `es` once flushed. -/
theorem readsBack_flush {df df₀ : DataFile} {cur₀ cur : List UInt8} {done es : List DataEntry}
    (hl : Layout df cur) (hcur : cur ≠ [])
    (hp : payloads df.stored ++ cur =
      payloads df₀.stored ++ cur₀ ++ (entriesLaidOut cur₀.length es).1)
    (hes : ∀ e ∈ es, e.dataType ≠ .padding ∧ e.content.length ≤ PAYLOAD_MAX)
    (hfit : lengthFits cur₀.length es = true) (h2 : 2 ≤ (payloads df₀.stored ++ cur₀).length)
    (h₀ : ∀ tail, DataIterator.decodeStream ((payloads df₀.stored ++ cur₀).drop 2 ++ tail) =
      done ++ DataIterator.decodeStream tail) :
    ReadsBack df.flush.stored (done ++ es) := by
  rw [flush_stored hl hcur]
  refine ⟨hl.offsets_stored_page, fun tail => ?_⟩
  rw [hl.payloads_stored_page, hp,
    List.append_assoc (payloads df₀.stored ++ cur₀) (entriesLaidOut cur₀.length es).1,
    List.drop_append_of_le_length h2, List.append_assoc _ _ tail, h₀,
    List.append_assoc (entriesLaidOut cur₀.length es).1, decodeStream_entriesLaidOut hes hfit,
    DataIterator.decodeStream_padding_append _ (zeros_padding _), List.append_assoc]

/-! ## The round trip -/

/-- Entries appended to a fresh `DataFile` and flushed are read back by `data_iter`, in order, and
then only `None`, over as many pages as they take, when none is of type padding, none is longer
than a payload, and the length field of none crosses a page boundary. -/
theorem appendAll_roundTrip {es : List DataEntry}
    (hes : ∀ e ∈ es, e.dataType ≠ .padding ∧ e.content.length ≤ PAYLOAD_MAX)
    (hfit : lengthFits 2 es = true) (hn : es.length < 2 ^ 30) :
    ∃ df os, new.appendAll es = .ok (df, os) ∧ ∀ k,
      df.flush.dataIter.nexts (es.length + 1 + k) = es.map some ++ List.replicate (k + 1) none := by
  cases es with
  | nil => exact ⟨new, [], rfl, (⟨rfl, fun _ => rfl⟩ : ReadsBack [] []).nexts (by decide)⟩
  | cons e es =>
    rw [List.length_cons] at hn
    obtain ⟨df', os, cur', h', hl', hcur', -, hp', hn', -⟩ :=
      appendAll_layout start_new layout_start_new (fun e' he' => (hes e' he').2)
        (by unfold PAGE_SIZE; simp only [List.length_nil]; omega)
    have hr : ReadsBack df'.flush.stored ([] ++ e :: es) :=
      readsBack_flush hl' hcur' hp' hes hfit (by decide) fun _ => rfl
    refine ⟨df', 2 :: os, h', hr.nexts ?_⟩
    rw [flush_stored hl' hcur', List.length_append, List.length_singleton]
    simp only [List.length_nil] at hn'
    unfold PAGE_SIZE; omega

/-- `appendAll_roundTrip` for two entries, the second one's content crossing into page `1`. -/
theorem appendAll_roundTrip_crossing :
    (∀ e ∈ [DataEntry.mk .transactionOrAppData (List.replicate 4000 7),
        DataEntry.mk .headerOrBlock (List.replicate 200 9)],
        e.dataType ≠ .padding ∧ e.content.length ≤ PAYLOAD_MAX) ∧
      lengthFits 2 [DataEntry.mk .transactionOrAppData (List.replicate 4000 7),
        DataEntry.mk .headerOrBlock (List.replicate 200 9)] = true ∧
      [DataEntry.mk .transactionOrAppData (List.replicate 4000 7),
        DataEntry.mk .headerOrBlock (List.replicate 200 9)].length < 2 ^ 30 ∧
      ∃ df os, new.appendAll [DataEntry.mk .transactionOrAppData (List.replicate 4000 7),
          DataEntry.mk .headerOrBlock (List.replicate 200 9)] = .ok (df, os) ∧ ∀ k,
        df.flush.dataIter.nexts (2 + 1 + k) =
          [some (DataEntry.mk .transactionOrAppData (List.replicate 4000 7)),
            some (DataEntry.mk .headerOrBlock (List.replicate 200 9))] ++
            List.replicate (k + 1) none := by
  have hes : ∀ e ∈ [DataEntry.mk .transactionOrAppData (List.replicate 4000 7),
      DataEntry.mk .headerOrBlock (List.replicate 200 9)],
      e.dataType ≠ .padding ∧ e.content.length ≤ PAYLOAD_MAX := by
    intro e he
    cases he with
    | head => exact ⟨by decide, by rw [List.length_replicate]; decide⟩
    | tail _ he =>
      cases he with
      | head => exact ⟨by decide, by rw [List.length_replicate]; decide⟩
      | tail _ he => cases he
  have hfit : lengthFits 2 [DataEntry.mk .transactionOrAppData (List.replicate 4000 7),
      DataEntry.mk .headerOrBlock (List.replicate 200 9)] = true := by
    simp only [lengthFits, entryEnd, List.length_replicate]
    decide
  exact ⟨hes, hfit, by decide, appendAll_roundTrip hes hfit (by decide)⟩

/-! ## Reading from an offset -/

/-- The flat decoder started at the type byte of an entry reads back that entry and every entry
after it. -/
theorem decodeStream_drop_entryStarts {es : List DataEntry}
    (hes : ∀ e ∈ es, e.dataType ≠ .padding ∧ e.content.length ≤ PAYLOAD_MAX) :
    ∀ {i : Nat} {pre : List UInt8}, lengthFits i es = true → ∀ tail,
      (entryStarts pre.length i es).map (fun t =>
        DataIterator.decodeStream ((pre ++ (entriesLaidOut i es).1 ++ tail).drop t)) =
        es.tails.dropLast.map (· ++ DataIterator.decodeStream tail) := by
  induction es with
  | nil => intro i pre _ tail; rfl
  | cons e es ih =>
    intro i pre hfit tail
    have hfit' := hfit
    simp only [lengthFits, Bool.and_eq_true, beq_iff_eq] at hfit'
    have htails : es.tails ≠ [] := by cases es <;> exact List.cons_ne_nil _ _
    have ih' := @ih (fun e' he' => hes e' (List.mem_cons_of_mem e he')) (entryEnd i e)
      (pre ++ (laidOut i (entrySlices e)).1) hfit'.2 tail
    rw [List.length_append, List.append_assoc pre] at ih'
    simp only [entryStarts, List.map_cons, List.tails, List.dropLast_cons_of_ne_nil htails]
    refine congrArg₂ (· :: ·) ?_ ih'
    rw [List.append_assoc, List.drop_left, decodeStream_entriesLaidOut hes hfit]

/-- At the stream index `entryStarts` gives an entry, its encoding starts. -/
theorem encode_prefix_drop_entryStarts {es : List DataEntry} :
    ∀ {i : Nat} {pre : List UInt8}, lengthFits i es = true → ∀ tail,
      List.Forall₂ (fun t (e : DataEntry) => e.encode <+: (pre ++ (entriesLaidOut i es).1 ++ tail).drop t)
        (entryStarts pre.length i es) es := by
  induction es with
  | nil => intro i pre _ tail; exact .nil
  | cons e es ih =>
    intro i pre hfit tail
    simp only [lengthFits, Bool.and_eq_true, beq_iff_eq] at hfit
    have ih' := @ih (entryEnd i e) (pre ++ (laidOut i (entrySlices e)).1) hfit.2 tail
    rw [List.length_append, List.append_assoc pre] at ih'
    refine .cons ?_ ih'
    rw [entriesLaidOut, List.append_assoc, List.append_assoc, List.drop_left,
      laidOut_entrySlices hfit.1, List.append_assoc]
    exact List.prefix_append _ _

/-- Every offset `append` returns addresses its entry. Read as an index into the payload stream
(page number times `PAYLOAD_MAX` plus in-page position), it is where the entry's encoding starts:
its type byte, its length and its content. The flat decoder started there reads back that entry
and every entry appended after it. This holds for entries appended to a fresh `DataFile` and
flushed, under the conditions of `appendAll_roundTrip`. An offset at in-page position
`PAYLOAD_MAX` addresses no payload byte of its own page, but its index is that of the next page's
first byte, where the type byte lies. -/
theorem appendAll_offsets_decode {es : List DataEntry}
    (hes : ∀ e ∈ es, e.dataType ≠ .padding ∧ e.content.length ≤ PAYLOAD_MAX)
    (hfit : lengthFits 2 es = true) (hn : es.length < 2 ^ 30) :
    ∃ df os, new.appendAll es = .ok (df, os) ∧
      List.Forall₂ (fun o (e : DataEntry) =>
        e.encode <+: (payloads df.flush.stored).drop (PRef.toStream o)) os es ∧
      os.map (fun o => DataIterator.decodeStream ((payloads df.flush.stored).drop (PRef.toStream o))) =
        es.tails.dropLast := by
  cases es with
  | nil => exact ⟨new, [], rfl, .nil, rfl⟩
  | cons e es =>
    rw [List.length_cons] at hn
    obtain ⟨df', os, cur', h', hl', hcur', -, hp', -, hos⟩ :=
      appendAll_layout start_new layout_start_new (fun e' he' => (hes e' he').2)
        (by unfold PAGE_SIZE; simp only [List.length_nil]; omega)
    refine ⟨df', 2 :: os, h', ?_, ?_⟩
    · refine (List.forall₂_map_left_iff (f := PRef.toStream) (R := fun t (e : DataEntry) =>
        e.encode <+: (payloads df'.flush.stored).drop t)).mp ?_
      rw [hos, flush_stored hl' hcur', hl'.payloads_stored_page, hp']
      exact encode_prefix_drop_entryStarts hfit _
    have hz : DataIterator.decodeStream (List.replicate (PAYLOAD_MAX - cur'.length) 0) = [] := by
      rw [← List.append_nil (List.replicate _ 0),
        DataIterator.decodeStream_padding_append _ (zeros_padding _)]
      exact DataIterator.decodeStream_of_none rfl
    have hmap : (2 :: os).map (fun o =>
        DataIterator.decodeStream ((payloads df'.flush.stored).drop (PRef.toStream o))) =
        ((2 :: os).map PRef.toStream).map (fun t =>
          DataIterator.decodeStream ((payloads df'.flush.stored).drop t)) := by
      rw [List.map_map]; rfl
    rw [hmap, hos, flush_stored hl' hcur', hl'.payloads_stored_page, hp']
    refine (decodeStream_drop_entryStarts hes hfit _).trans ?_
    rw [hz]
    simp

theorem appendAll_offsets_decode_two :
    (∀ e ∈ [DataEntry.mk .transactionOrAppData [1, 2, 3], DataEntry.mk .headerOrBlock [4]],
        e.dataType ≠ .padding ∧ e.content.length ≤ PAYLOAD_MAX) ∧
      lengthFits 2 [DataEntry.mk .transactionOrAppData [1, 2, 3], DataEntry.mk .headerOrBlock [4]] =
        true ∧
      [DataEntry.mk .transactionOrAppData [1, 2, 3], DataEntry.mk .headerOrBlock [4]].length < 2 ^ 30 ∧
      ∃ df os, new.appendAll [DataEntry.mk .transactionOrAppData [1, 2, 3],
          DataEntry.mk .headerOrBlock [4]] = .ok (df, os) ∧
        List.Forall₂ (fun o (e : DataEntry) =>
          e.encode <+: (payloads df.flush.stored).drop (PRef.toStream o)) os
          [DataEntry.mk .transactionOrAppData [1, 2, 3], DataEntry.mk .headerOrBlock [4]] ∧
        os.map (fun o => DataIterator.decodeStream ((payloads df.flush.stored).drop (PRef.toStream o))) =
          [[DataEntry.mk .transactionOrAppData [1, 2, 3], DataEntry.mk .headerOrBlock [4]],
            [DataEntry.mk .headerOrBlock [4]]] :=
  ⟨by decide, by decide, by decide, appendAll_offsets_decode (by decide) (by decide) (by decide)⟩

end Hammersbald.DataFile
