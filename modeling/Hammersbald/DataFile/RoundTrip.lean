import Hammersbald.DataFile.Reader

/-!
# What the writer lays out, and what the reader makes of it

`Layout df cur` describes a `DataFile` as the writer keeps it: the pages handed to the file sit
at offsets `0, PAGE_SIZE, …`, the page in hand at the next offset holds the bytes `cur` and then
zeros, and `append_pos` is just past `cur`.  Every `append_slice` of at most `PAYLOAD_MAX` bytes
keeps that shape, and the stream of payloads grows by the slice followed by `gap` zero bytes.
`gap` is zero unless the slice crosses into the next page after some of its bytes: `append_slice`
then moves `append_pos` by the whole slice length from the start of the next page, so the bytes
written before the crossing are skipped a second time.

The results.

* `appendSlice_layout`: one slice keeps the layout, and hands exactly one page to the file when
  it does not fit in the page in hand, none otherwise.
* `appendSlices_layout`, `append_layout`: what a sequence of slices, and an entry, lay out.
* `dataIter_flush`: after `flush`, `data_iter` reads the pages handed to the file, in order.
* `roundTrip_of_fits`: entries whose encodings fit, with the magic bytes, in the first page are
  read back exactly, and then `None`.
* `data_iter_after_length_crossing`: an entry whose length field crosses a page boundary is not
  read back.
-/

namespace Hammersbald

namespace DataFile

/-! ## The layout -/

/-- The zero bytes `append_slice` leaves in the stream after a slice of `len` bytes written at
in-page position `i`: the bytes written before a crossing into the next page. -/
def gap (i len : Nat) : Nat := if i < PAYLOAD_MAX ∧ PAYLOAD_MAX < i + len then PAYLOAD_MAX - i else 0

/-- The in-page position after such a slice. -/
def nextPos (i len : Nat) : Nat := if i + len ≤ PAYLOAD_MAX then i + len else len

/-- What a sequence of slices written from in-page position `i` lays out in the stream, and the
in-page position after them. -/
def laidOut (i : Nat) : List (List UInt8) → List UInt8 × Nat
  | [] => ([], i)
  | s :: ss =>
    let r := laidOut (nextPos i s.length) ss
    (s ++ List.replicate (gap i s.length) 0 ++ r.1, r.2)

/-- A sequence of `append_slice` calls. -/
def appendSlices (df : DataFile) : List (List UInt8) → Except String DataFile
  | [] => .ok df
  | s :: ss => do appendSlices (← df.appendSlice s) ss

/-- The slices `append` writes for an entry. -/
def entrySlices (e : DataEntry) : List (List UInt8) :=
  [[e.dataType.toU8], U24.serialize e.content.length, e.content]

/-- The file as the writer keeps it, with `cur` the bytes of the page in hand. -/
structure Layout (df : DataFile) (cur : List UInt8) : Prop where
  offsets : df.stored.map Page.offset = (List.range df.stored.length).map (· * PAGE_SIZE)
  page_offset : df.page.offset = df.stored.length * PAGE_SIZE
  length_le : cur.length ≤ PAYLOAD_MAX
  page_payload : df.page.payload = cur ++ List.replicate (PAYLOAD_MAX - cur.length) 0
  appendPos_eq : df.appendPos = df.stored.length * PAGE_SIZE + cur.length

theorem layout_new : Layout new [] :=
  ⟨rfl, rfl, Nat.zero_le _, rfl, rfl⟩

namespace Layout

variable {df : DataFile} {cur : List UInt8}

theorem inPagePos_eq (hl : Layout df cur) : PRef.inPagePos df.appendPos = cur.length := by
  have := hl.length_le
  rw [hl.appendPos_eq, PRef.inPagePos]
  unfold PAYLOAD_MAX PAGE_PAYLOAD_SIZE at this
  unfold PAGE_SIZE
  omega

theorem thisPage_eq (hl : Layout df cur) : PRef.thisPage df.appendPos = df.stored.length * PAGE_SIZE := by
  have h := PRef.thisPage_add_inPagePos df.appendPos
  have := hl.appendPos_eq
  rw [hl.inPagePos_eq] at h
  omega

/-- The pages a flush hands on: those already handed on, and the page in hand. -/
theorem payloads_stored_page (hl : Layout df cur) :
    payloads (df.stored ++ [df.page]) =
      payloads df.stored ++ cur ++ List.replicate (PAYLOAD_MAX - cur.length) 0 := by
  simp [payloads_append, hl.page_payload]

theorem offsets_stored_page (hl : Layout df cur) :
    (df.stored ++ [df.page]).map Page.offset =
      (List.range (df.stored ++ [df.page]).length).map (· * PAGE_SIZE) := by
  simp [List.range_succ, hl.offsets, hl.page_offset]

end Layout

/-! ## One slice -/

section Slice

variable {df : DataFile} {cur slice : List UInt8}

theorem appendSlice_layout_fits (hl : Layout df cur) (hfit : cur.length + slice.length ≤ PAYLOAD_MAX)
    (hlt : df.appendPos + slice.length < 2 ^ 48) :
    df.appendSlice slice = .ok ⟨df.appendPos + slice.length,
      df.page.write cur.length slice, df.stored⟩ ∧
      Layout ⟨df.appendPos + slice.length, df.page.write cur.length slice, df.stored⟩
        (cur ++ slice) := by
  rw [← hl.inPagePos_eq] at hfit ⊢
  refine ⟨appendSlice_fits df hfit hlt, hl.offsets, by simpa using hl.page_offset,
    by simpa [hl.inPagePos_eq] using hfit, ?_, ?_⟩
  · rw [Page.write_payload, hl.page_payload, hl.inPagePos_eq,
      splice_append_replicate _ _ _ (by rw [hl.inPagePos_eq] at hfit; omega)]
    simp [Nat.sub_sub]
  · simp [hl.appendPos_eq, Nat.add_assoc]

theorem appendSlice_layout_at_end (hl : Layout df cur) (hp : cur.length = PAYLOAD_MAX)
    (hr : slice ≠ []) (hs : slice.length ≤ PAYLOAD_MAX)
    (hlt : (df.stored.length + 1) * PAGE_SIZE + slice.length < 2 ^ 48) :
    df.appendSlice slice = .ok ⟨(df.stored.length + 1) * PAGE_SIZE + slice.length,
      (Page.new ((df.stored.length + 1) * PAGE_SIZE)).write 0 slice, df.stored ++ [df.page]⟩ ∧
      Layout ⟨(df.stored.length + 1) * PAGE_SIZE + slice.length,
        (Page.new ((df.stored.length + 1) * PAGE_SIZE)).write 0 slice, df.stored ++ [df.page]⟩
        slice := by
  have hpage : PRef.thisPage df.appendPos + PAGE_SIZE = (df.stored.length + 1) * PAGE_SIZE := by
    rw [hl.thisPage_eq, Nat.succ_mul]
  refine ⟨?_, hl.offsets_stored_page, by simp, hs, ?_, by simp⟩
  · rw [appendSlice_at_end df (hl.inPagePos_eq.trans hp) hr hs (by rw [hpage]; exact hlt), hpage]
  · simpa [Page.new] using splice_replicate_zero _ slice hs

theorem appendSlice_layout_cross (hl : Layout df cur) (hp : cur.length < PAYLOAD_MAX)
    (hover : PAYLOAD_MAX < cur.length + slice.length) (hs : slice.length ≤ PAYLOAD_MAX)
    (hlt : (df.stored.length + 1) * PAGE_SIZE + slice.length < 2 ^ 48) :
    df.appendSlice slice = .ok ⟨(df.stored.length + 1) * PAGE_SIZE + slice.length,
      (Page.new ((df.stored.length + 1) * PAGE_SIZE)).write 0
        (slice.drop (PAYLOAD_MAX - cur.length)),
      df.stored ++ [df.page.write cur.length (slice.take (PAYLOAD_MAX - cur.length))]⟩ ∧
      Layout ⟨(df.stored.length + 1) * PAGE_SIZE + slice.length,
        (Page.new ((df.stored.length + 1) * PAGE_SIZE)).write 0
          (slice.drop (PAYLOAD_MAX - cur.length)),
        df.stored ++ [df.page.write cur.length (slice.take (PAYLOAD_MAX - cur.length))]⟩
        (slice.drop (PAYLOAD_MAX - cur.length) ++
          List.replicate (PAYLOAD_MAX - cur.length) 0) := by
  have hpage : PRef.thisPage df.appendPos + PAGE_SIZE = (df.stored.length + 1) * PAGE_SIZE := by
    rw [hl.thisPage_eq, Nat.succ_mul]
  have hmax : PAYLOAD_MAX = PAGE_PAYLOAD_SIZE := rfl
  refine ⟨?_, ?_, by simp, by simp; omega, ?_, by simp; omega⟩
  · rw [appendSlice_cross df (by rw [hl.inPagePos_eq]; exact hp) (by rw [hl.inPagePos_eq]; exact hover)
      (by rw [hl.inPagePos_eq]; omega) (by rw [hpage]; exact hlt), hpage, hl.inPagePos_eq]
  · simp [List.range_succ, hl.offsets, hl.page_offset]
  · have hd : (slice.drop (PAYLOAD_MAX - cur.length)).length ≤ PAGE_PAYLOAD_SIZE := by
      simp [PAYLOAD_MAX]; omega
    rw [Page.write_payload]
    simp only [Page.new]
    rw [splice_replicate_zero _ _ hd, List.append_assoc, ← List.replicate_add]
    congr 2
    simp only [List.length_append, List.length_drop, List.length_replicate]
    omega

/-- One `append_slice` of at most `PAYLOAD_MAX` bytes keeps the layout; the stream grows by the
slice and `gap` zero bytes. -/
theorem appendSlice_keeps_layout (hl : Layout df cur) (hs : slice.length ≤ PAYLOAD_MAX)
    (hlt : (df.stored.length + 2) * PAGE_SIZE < 2 ^ 48) :
    ∃ df' cur', df.appendSlice slice = .ok df' ∧ Layout df' cur' ∧
      cur'.length = nextPos cur.length slice.length ∧
      payloads df'.stored ++ cur' =
        payloads df.stored ++ cur ++ slice ++ List.replicate (gap cur.length slice.length) 0 ∧
      df'.stored.length ≤ df.stored.length + 1 := by
  have hcur := hl.length_le
  have hap := hl.appendPos_eq
  have hsize : PAYLOAD_MAX + 6 = PAGE_SIZE := rfl
  have hmax : PAYLOAD_MAX = PAGE_PAYLOAD_SIZE := rfl
  by_cases hfit : cur.length + slice.length ≤ PAYLOAD_MAX
  · obtain ⟨h₁, h₂⟩ := appendSlice_layout_fits hl hfit (by rw [Nat.add_mul] at hlt; omega)
    refine ⟨_, _, h₁, h₂, by simp [nextPos, hfit], ?_, by simp⟩
    simp [gap, show ¬PAYLOAD_MAX < cur.length + slice.length by omega]
  · have hr : slice ≠ [] := by rintro rfl; simp at hfit; omega
    have hlt' : (df.stored.length + 1) * PAGE_SIZE + slice.length < 2 ^ 48 := by
      rw [Nat.add_mul] at hlt ⊢; omega
    rcases Nat.lt_or_ge cur.length PAYLOAD_MAX with hp | hp
    · obtain ⟨h₁, h₂⟩ := appendSlice_layout_cross hl hp (by omega) hs hlt'
      refine ⟨_, _, h₁, h₂, ?_, ?_, by simp⟩
      · rw [nextPos, if_neg hfit]
        simp only [List.length_append, List.length_drop, List.length_replicate]
        omega
      rw [gap, if_pos ⟨hp, by omega⟩, payloads_append, payloads_cons, payloads_nil,
        List.append_nil, Page.write_payload, hl.page_payload,
        splice_append_replicate _ _ _ (by simp only [List.length_take]; omega)]
      conv_rhs => rw [← List.take_append_drop (PAYLOAD_MAX - cur.length) slice]
      simp only [List.append_assoc, List.length_take, Nat.min_eq_left (by omega : PAYLOAD_MAX - cur.length ≤ slice.length),
        Nat.sub_self, List.replicate_zero, List.nil_append]
    · obtain ⟨h₁, h₂⟩ := appendSlice_layout_at_end hl (by omega) hr hs hlt'
      refine ⟨_, _, h₁, h₂, by simp [nextPos, hfit], ?_, by simp⟩
      simp [gap, payloads_append, hl.page_payload, show ¬cur.length < PAYLOAD_MAX by omega]
      omega

/-- `append_slice` of at most a payload keeps the layout, extends the stream by the slice and its
gap, and hands exactly one page to the file when the slice does not fit in the page in hand, none
otherwise.  The count follows from the stream's length. -/
theorem appendSlice_layout (hl : Layout df cur) (hs : slice.length ≤ PAYLOAD_MAX)
    (hlt : (df.stored.length + 2) * PAGE_SIZE < 2 ^ 48) :
    ∃ df' cur', df.appendSlice slice = .ok df' ∧ Layout df' cur' ∧
      cur'.length = nextPos cur.length slice.length ∧
      payloads df'.stored ++ cur' =
        payloads df.stored ++ cur ++ slice ++ List.replicate (gap cur.length slice.length) 0 ∧
      df'.stored.length =
        df.stored.length + if cur.length + slice.length ≤ PAYLOAD_MAX then 0 else 1 := by
  obtain ⟨df', cur', h, hl', hc, hp, -⟩ := appendSlice_keeps_layout hl hs hlt
  refine ⟨df', cur', h, hl', hc, hp, ?_⟩
  have hlen := congrArg List.length hp
  have hcur := hl.length_le
  simp only [List.length_append, length_payloads, List.length_replicate, hc, nextPos, gap] at hlen
  unfold PAYLOAD_MAX PAGE_PAYLOAD_SIZE at *
  split_ifs at hlen ⊢ <;> omega

theorem appendSlice_layout_magic :
    ∃ df' cur', new.appendSlice [0xBC, 0xDA] = .ok df' ∧ Layout df' cur' ∧
      cur'.length = nextPos 0 2 ∧
      payloads df'.stored ++ cur' = payloads [] ++ [] ++ [0xBC, 0xDA] ++ List.replicate (gap 0 2) 0 ∧
      df'.stored.length = 0 + if 0 + 2 ≤ PAYLOAD_MAX then 0 else 1 :=
  appendSlice_layout layout_new (by decide) (by decide)

end Slice

/-! ## Slices and entries -/

/-- A sequence of slices of at most `PAYLOAD_MAX` bytes each keeps the layout and lays out what
`laidOut` says. -/
theorem appendSlices_layout {ss : List (List UInt8)} :
    ∀ {df : DataFile} {cur : List UInt8}, Layout df cur → (∀ s ∈ ss, s.length ≤ PAYLOAD_MAX) →
      (df.stored.length + ss.length + 1) * PAGE_SIZE < 2 ^ 48 →
      ∃ df' cur', df.appendSlices ss = .ok df' ∧ Layout df' cur' ∧
        cur'.length = (laidOut cur.length ss).2 ∧
        payloads df'.stored ++ cur' = payloads df.stored ++ cur ++ (laidOut cur.length ss).1 ∧
        df'.stored.length ≤ df.stored.length + ss.length := by
  induction ss with
  | nil => exact fun hl _ _ => ⟨_, _, rfl, hl, rfl, by simp [laidOut], Nat.le_refl _⟩
  | cons s ss ih =>
    intro df cur hl hs hlt
    rw [List.length_cons] at hlt
    obtain ⟨df₁, cur₁, h₁, hl₁, hc₁, hp₁, hn₁⟩ :=
      appendSlice_keeps_layout hl (hs s (List.mem_cons_self _ _)) (lt_of_le_of_lt
        (Nat.mul_le_mul_right _ (by omega)) hlt)
    obtain ⟨df', cur', h', hl', hc', hp', hn'⟩ :=
      ih hl₁ (fun s' hs' => hs s' (List.mem_cons_of_mem _ hs'))
        (lt_of_le_of_lt (Nat.mul_le_mul_right _ (by omega)) hlt)
    refine ⟨df', cur', by simp only [appendSlices, h₁, bind, Except.bind, h'], hl', ?_, ?_,
      by simp only [List.length_cons]; omega⟩
    · rw [hc', hc₁, laidOut]
    · rw [hp', hc₁, hp₁, laidOut]
      simp only [List.append_assoc]

theorem start_of_appendPos {df : DataFile} (h : df.appendPos ≠ 0) : df.start = .ok df := by
  unfold start
  rw [if_neg (fun hc => h hc.2)]

/-- `append` is `start` followed by the entry's three slices, at the offset `start` leaves. -/
theorem append_eq {df df₀ : DataFile} {e : DataEntry} (hs : df.start = .ok df₀)
    (hc : e.content.length < 2 ^ 24) :
    df.append e = (df₀.appendSlices (entrySlices e)).map (·, df₀.appendPos) := by
  simp only [append, hs, appendSlices, entrySlices, bind, Except.bind, U24.new, if_pos hc]
  cases df₀.appendSlice [e.dataType.toU8] with
  | error => rfl
  | ok d₁ =>
    dsimp only
    cases d₁.appendSlice (U24.serialize e.content.length) with
    | error => rfl
    | ok d₂ =>
      dsimp only
      cases d₂.appendSlice e.content <;> rfl

/-- An entry of at most `PAYLOAD_MAX` content bytes keeps the layout, returns the offset `start`
leaves, and lays out what `laidOut` says for its three slices. -/
theorem append_layout {df df₀ : DataFile} {cur : List UInt8} {e : DataEntry}
    (hs : df.start = .ok df₀) (hl : Layout df₀ cur) (hc : e.content.length ≤ PAYLOAD_MAX)
    (hlt : (df₀.stored.length + 4) * PAGE_SIZE < 2 ^ 48) :
    ∃ df' cur', df.append e = .ok (df', df₀.appendPos) ∧ Layout df' cur' ∧
      cur'.length = (laidOut cur.length (entrySlices e)).2 ∧
      payloads df'.stored ++ cur' = payloads df₀.stored ++ cur ++ (laidOut cur.length (entrySlices e)).1 ∧
      df'.stored.length ≤ df₀.stored.length + 3 := by
  have hmax : PAYLOAD_MAX < 2 ^ 24 := by decide
  obtain ⟨df', cur', h, rest⟩ := @appendSlices_layout (entrySlices e) _ _ hl (by
    simp only [entrySlices, List.mem_cons, List.mem_singleton, List.not_mem_nil, or_false]
    rintro s (rfl | rfl | rfl)
    · simp [PAYLOAD_MAX, PAGE_PAYLOAD_SIZE]
    · simp [U24.serialize, PAYLOAD_MAX, PAGE_PAYLOAD_SIZE]
    · exact hc) (by simpa [entrySlices, Nat.add_assoc] using hlt)
  exact ⟨df', cur', by rw [append_eq hs (by omega), h]; rfl, rest⟩

/-- After `flush`, `data_iter` reads the pages handed to the file and then the page that was in
hand. -/
theorem dataIter_flush {df : DataFile} {cur : List UInt8} (hl : Layout df cur) (hcur : cur ≠ [])
    (hn : df.stored.length < 2 ^ 47 / PAGE_SIZE) :
    df.flush.dataIter = .new (df.stored ++ [df.page]) := by
  have hpos : 0 < PRef.inPagePos df.appendPos := by
    rw [hl.inPagePos_eq]; exact List.length_pos.mpr hcur
  simp only [flush, if_pos hpos, dataIter]
  rw [pageIter_readPage hl.offsets_stored_page
    (by rw [List.length_append, List.length_singleton]; omega), List.drop_zero]

/-! ## Entries that fit in the first page -/

theorem laidOut_of_fits {ss : List (List UInt8)} :
    ∀ {i : Nat}, i + ss.flatten.length ≤ PAYLOAD_MAX → laidOut i ss = (ss.flatten, i + ss.flatten.length) := by
  induction ss with
  | nil => intro i _; rfl
  | cons s ss ih =>
    intro i h
    simp only [List.flatten_cons, List.length_append] at h
    rw [laidOut, gap, if_neg (by omega), nextPos, if_pos (by omega), ih (by omega)]
    simp [Nat.add_assoc]

@[simp] theorem flatten_entrySlices (e : DataEntry) : (entrySlices e).flatten = e.encode := by
  simp [entrySlices, DataEntry.encode]

theorem length_encode (e : DataEntry) : e.encode.length = e.content.length + 4 := by
  simp [DataEntry.encode, U24.serialize]; omega

/-- An entry that fits in the page in hand, while no page has been handed on, is written as its
encoding and hands no page on. -/
theorem append_fits {df df₀ : DataFile} {cur : List UInt8} {e : DataEntry}
    (hs : df.start = .ok df₀) (hl : Layout df₀ cur) (hst : df₀.stored = [])
    (hfit : cur.length + e.encode.length ≤ PAYLOAD_MAX) :
    ∃ df', df.append e = .ok (df', df₀.appendPos) ∧ Layout df' (cur ++ e.encode) ∧ df'.stored = [] := by
  have hc : e.content.length ≤ PAYLOAD_MAX := by rw [length_encode] at hfit; omega
  obtain ⟨df', cur', h, hl', hc', hp', -⟩ := append_layout hs hl hc (by rw [hst]; decide)
  rw [laidOut_of_fits (by simpa using hfit), flatten_entrySlices] at hc' hp'
  have hst' : df'.stored = [] := by
    have := congrArg List.length hp'
    simp only [List.length_append, length_payloads, hst, List.length_nil, Nat.zero_mul, hc'] at this
    have h0 : df'.stored.length * PAYLOAD_MAX = 0 := by omega
    exact List.length_eq_zero.mp ((Nat.mul_eq_zero.mp h0).resolve_right (by decide))
  rw [hst, hst', payloads_nil, List.nil_append, List.nil_append] at hp'
  exact ⟨df', h, hp' ▸ hl', hst'⟩

/-- Entries that fit in the page in hand after the first one has started the file. -/
theorem appendAll_fits {es : List DataEntry} :
    ∀ {df : DataFile} {cur : List UInt8}, Layout df cur → df.stored = [] → cur ≠ [] →
      cur.length + (es.map DataEntry.encode).flatten.length ≤ PAYLOAD_MAX →
      ∃ df' os, df.appendAll es = .ok (df', os) ∧
        Layout df' (cur ++ (es.map DataEntry.encode).flatten) ∧ df'.stored = [] := by
  induction es with
  | nil => exact fun hl hst _ _ => ⟨_, [], rfl, by simpa using hl, hst⟩
  | cons e es ih =>
    intro df cur hl hst hcur hfit
    simp only [List.map_cons, List.flatten_cons, List.length_append] at hfit
    have hne : df.appendPos ≠ 0 := by
      rw [hl.appendPos_eq, hst]; simpa using hcur
    obtain ⟨df₁, h₁, hl₁, hst₁⟩ := @append_fits _ _ _ e (start_of_appendPos hne) hl hst (by omega)
    obtain ⟨df', os, h', hl', hst'⟩ := ih hl₁ hst₁ (by simp [hcur]) (by rw [List.length_append]; omega)
    refine ⟨df', df.appendPos :: os, ?_, by simpa using hl', hst'⟩
    rw [appendAll, h₁]; simp only [bind, Except.bind]; rw [h']; rfl

theorem layout_start_new : Layout ⟨2, (Page.new 0).write 0 [0xBC, 0xDA], []⟩ [0xBC, 0xDA] :=
  (@appendSlice_layout_fits new [] [0xBC, 0xDA] layout_new (by decide) (by decide)).2

theorem content_lt_of_fits {es : List DataEntry} {e : DataEntry} (he : e ∈ es)
    (hfit : 2 + (es.map DataEntry.encode).flatten.length ≤ PAYLOAD_MAX) :
    e.content.length < 2 ^ 24 := by
  obtain ⟨l₁, l₂, rfl⟩ := List.append_of_mem he
  simp only [List.map_append, List.map_cons, List.flatten_append, List.flatten_cons,
    List.length_append, length_encode] at hfit
  have : PAYLOAD_MAX < 2 ^ 24 := by decide
  omega

/-- Entries that fit, with the magic bytes, in the first page are read back by `data_iter`
exactly, in order, and then `None`. -/
theorem roundTrip_of_fits {es : List DataEntry} (hes : ∀ e ∈ es, e.dataType ≠ .padding)
    (hfit : 2 + (es.map DataEntry.encode).flatten.length ≤ PAYLOAD_MAX) :
    ∃ df os, new.appendAll es = .ok (df, os) ∧
      df.flush.dataIter.nexts (es.length + 1) = es.map some ++ [none] := by
  cases es with
  | nil =>
    refine ⟨new, [], rfl, ?_⟩
    have : new.flush.dataIter = .new [] := by
      simp only [flush, dataIter]
      rw [if_neg (by decide), pageIter_readPage (by rfl) (by decide), List.drop_zero]; rfl
    rw [this]; rfl
  | cons e es =>
    have hfit' := hfit
    simp only [List.map_cons, List.flatten_cons, List.length_append] at hfit'
    obtain ⟨df₁, h₁, hl₁, hst₁⟩ := @append_fits _ _ _ e start_new layout_start_new rfl (by simp; omega)
    obtain ⟨df', os, h', hl', hst'⟩ := @appendAll_fits es _ _ hl₁ hst₁ (by simp)
      (by simp only [List.length_append, List.length_cons, List.length_nil]; omega)
    refine ⟨df', 2 :: os, by rw [appendAll, h₁]; simp only [bind, Except.bind]; rw [h']; rfl, ?_⟩
    have hs : payloads (df'.stored ++ [df'.page]) =
        [0xBC, 0xDA] ++ ((e :: es).map DataEntry.encode).flatten ++
          List.replicate (PAYLOAD_MAX - ([0xBC, 0xDA] ++ e.encode ++
            (es.map DataEntry.encode).flatten).length) 0 := by
      rw [hl'.payloads_stored_page, hst']
      simp
    rw [dataIter_flush hl' (by simp) (by rw [hst']; decide)]
    exact DataIterator.nexts_new hs (fun x hx => by rw [List.eq_of_mem_replicate hx]; rfl)
      fun x hx => ⟨hes x hx, content_lt_of_fits hx hfit⟩

theorem roundTrip_of_fits_two :
    ∃ df os, new.appendAll [⟨.transactionOrAppData, [7]⟩, ⟨.headerOrBlock, []⟩] = .ok (df, os) ∧
      df.flush.dataIter.nexts 3 = [some ⟨.transactionOrAppData, [7]⟩, some ⟨.headerOrBlock, []⟩, none] :=
  roundTrip_of_fits (by decide) (by decide)

/-! ## A length field across a page boundary -/

/-- What the second append of `data_iter_after_length_crossing` lays out: its type byte at
payload byte `4088`, its length across the boundary with one byte skipped, and its content. -/
theorem laidOut_length_crossing :
    laidOut 4088 (entrySlices ⟨.transactionOrAppData, [1]⟩) = ([1, 0, 0, 1, 0, 1], 4) := by
  decide

/-- A first entry of 4082 content bytes fills page 0 up to payload byte `4088`; a second entry
`[1]` then has its three-byte length cross into page 1.  `data_iter` reads the first entry back,
then an entry with content `[0]` and an empty entry, neither of which was appended, and then
`None`. -/
theorem data_iter_after_length_crossing :
    (new.appendAll [⟨.transactionOrAppData, List.replicate 4082 0⟩,
        ⟨.transactionOrAppData, [1]⟩]).map (fun r => r.1.flush.dataIter.nexts 4) =
      .ok [some ⟨.transactionOrAppData, List.replicate 4082 0⟩, some ⟨.transactionOrAppData, [0]⟩,
        some ⟨.transactionOrAppData, []⟩, none] := by
  have hlen₁ : ([0xBC, 0xDA] ++ DataEntry.encode ⟨.transactionOrAppData, List.replicate 4082 0⟩).length
      = 4088 := by
    rw [List.length_append, length_encode, List.length_replicate]; rfl
  obtain ⟨df₁, h₁, hl₁, hst₁⟩ := @append_fits _ _ _ ⟨.transactionOrAppData, List.replicate 4082 0⟩
    start_new layout_start_new rfl (by rw [← List.length_append, hlen₁]; decide)
  have hne : df₁.appendPos ≠ 0 := by rw [hl₁.appendPos_eq, hlen₁]; omega
  obtain ⟨df₂, cur₂, h₂, hl₂, hc₂, hp₂, -⟩ := @append_layout _ _ _ ⟨.transactionOrAppData, [1]⟩
    (start_of_appendPos hne) hl₁ (by decide) (by rw [hst₁]; decide)
  rw [hlen₁, laidOut_length_crossing] at hc₂ hp₂
  dsimp only at hc₂ hp₂
  have hn : df₂.stored.length = 1 := by
    have := congrArg List.length hp₂
    rw [List.length_append, List.length_append, length_payloads, hst₁, payloads_nil, hc₂,
      List.nil_append, hlen₁] at this
    unfold PAYLOAD_MAX PAGE_PAYLOAD_SIZE at this
    simp only [List.length_cons, List.length_nil] at this
    omega
  have hrun : new.appendAll [⟨.transactionOrAppData, List.replicate 4082 0⟩,
      ⟨.transactionOrAppData, [1]⟩] = .ok (df₂, [2, df₁.appendPos]) := by
    rw [appendAll, h₁]; simp only [bind, Except.bind]; rw [appendAll, h₂]; rfl
  have hs : payloads (df₂.stored ++ [df₂.page]) = [0xBC, 0xDA] ++
      ([⟨.transactionOrAppData, List.replicate 4082 0⟩, ⟨.transactionOrAppData, [0]⟩,
        ⟨.transactionOrAppData, []⟩].map DataEntry.encode).flatten ++ List.replicate 4083 0 := by
    rw [hl₂.payloads_stored_page, hp₂, hc₂, hst₁, payloads_nil, List.nil_append,
      show PAYLOAD_MAX - 4 = 3 + 4083 from rfl, List.replicate_add]
    simp only [List.map_cons, List.map_nil, List.flatten_cons, List.flatten_nil, List.append_nil,
      List.append_assoc]
    rfl
  rw [hrun]
  show Except.ok (df₂.flush.dataIter.nexts 4) = _
  rw [dataIter_flush hl₂ (by rintro rfl; simp at hc₂) (by rw [hn]; decide)]
  refine congrArg Except.ok (DataIterator.nexts_new hs
    (fun x hx => by rw [List.eq_of_mem_replicate hx]; rfl) ?_)
  simp only [List.mem_cons, List.mem_singleton, List.not_mem_nil, or_false]
  rintro e (rfl | rfl | rfl) <;> refine ⟨by decide, ?_⟩
  · rw [List.length_replicate]; decide
  all_goals decide

/-! ## A failed append -/

/-- An entry of `2^24` content bytes as the first entry of a fresh file fails after its type byte
`1` is written.  An entry `[7]` appended after it is then read with that byte as its type and
`[7]`'s own type byte and first two length bytes, `[1, 0, 0]`, as its length: `65536` bytes, past
the end of the file, so `data_iter` yields `None`.  Without the failed call it yields the entry. -/
theorem append_error_leaves_type_byte :
    ∃ df₁, runM (appendMut ⟨.transactionOrAppData, List.replicate (2 ^ 24) 0⟩) new =
        (.error "U24 too big", df₁) ∧
      (∃ df₂, runM (appendMut ⟨.transactionOrAppData, [7]⟩) df₁ = (.ok 3, df₂) ∧
        df₂.flush.dataIter.nexts 2 = [none, none]) ∧
      ∃ df₂, runM (appendMut ⟨.transactionOrAppData, [7]⟩) new = (.ok 2, df₂) ∧
        df₂.flush.dataIter.nexts 2 = [some ⟨.transactionOrAppData, [7]⟩, none] := by
  obtain ⟨h₁, hl₁⟩ := @appendSlice_layout_fits _ [0xBC, 0xDA]
    [DataType.toU8 .transactionOrAppData] layout_start_new (by decide) (by decide)
  refine ⟨_, appendMut_of_too_long start_new h₁ (by rw [List.length_replicate]), ?_, ?_⟩
  · obtain ⟨df₂, h₂, hl₂, hst₂⟩ := append_fits (e := ⟨.transactionOrAppData, [7]⟩)
      (start_of_appendPos (by decide)) hl₁ rfl (by decide)
    refine ⟨df₂, runM_appendMut_of_ok h₂, ?_⟩
    rw [dataIter_flush hl₂ (by simp) (by rw [hst₂]; decide), hst₂, List.nil_append]
    have h : df₂.page.payload.drop 2 ++ payloads [] =
        [] ++ 1 :: ([1, 0, 0] ++ ([1, 7] ++ List.replicate (PAYLOAD_MAX - 8) 0)) := by
      rw [hl₂.page_payload, payloads_nil, List.append_nil]
      rfl
    show (DataIterator.next _).1 :: DataIterator.nexts 1 (DataIterator.next _).2 = _
    rw [DataIterator.next_new, DataIterator.readEntry_of_length_past_end h (by simp) (by decide) rfl
      (by rw [List.length_append, List.length_replicate]; decide)]
    rfl
  · obtain ⟨df₂, h₂, hl₂, hst₂⟩ := append_fits (e := ⟨.transactionOrAppData, [7]⟩) start_new
      layout_start_new rfl (by decide)
    refine ⟨df₂, runM_appendMut_of_ok h₂, ?_⟩
    rw [dataIter_flush hl₂ (by simp) (by rw [hst₂]; decide), hst₂, List.nil_append]
    exact @DataIterator.nexts_new _ [⟨.transactionOrAppData, [7]⟩] (List.replicate (PAYLOAD_MAX - 7) 0)
      (by rw [payloads_cons, payloads_nil, List.append_nil, hl₂.page_payload]; rfl)
      (fun x hx => by rw [List.eq_of_mem_replicate hx]; rfl) (by decide)

end DataFile

end Hammersbald
