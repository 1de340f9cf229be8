import Hammersbald.Page
import Mathlib.Data.List.Chain

/-!
# The writer of `DataFile`

`datafile.rs` belongs to the older lineage of the repository, with `Offset`, `U24` and a `Page`
that knows its own offset; `types.rs` and that `page.rs` are not in the snapshot, and are
modelled here from the specification.  A page of this lineage is the `Page` of `Page.lean` whose
six trailing bytes hold the page's own offset.

`DataFile::append` writes an entry as its type byte, its length as three big-endian bytes and
its content, each with `append_slice`.  `append_slice` fills the page at `append_pos`, hands a
full page to the file and starts the next one.

The model.

* `DataFile` is `append_pos`, the page being filled, and the pages handed to
  `AsyncFile::append_page`, oldest first.  The file stores each page at its own offset.
* `appendSliceLoop` is the loop of `append_slice`: a pass either hands a full page on or writes
  the bytes that fit.  `Except String` is a call that returns `Err` or panics; the texts of
  errors that are not in the source are left as placeholders.
* `DataFile::append` takes `&mut self`, so a call that returns `Err` keeps what it wrote before
  the failing step.  `DataFileM` runs a method so, and `appendMut` is `append` run so;
  `append_eq_okState` relates it to `append`, and `appendMut_of_too_long` is a content too long
  for `U24::new`, failing after the type byte is in the page.

The results.

* `appendSlice_fits`, `appendSlice_cross`: a slice that fits in the page moves `append_pos` by its
  length; a slice that crosses into the next page sets `append_pos` to the next page start plus
  the whole slice length, though only the bytes after the crossing are on that page.
* `appendAll_offsets_increasing`: the offsets a sequence of successful appends returns are
  strictly increasing, each four bytes or more below the final `append_pos`.
* `append_offset_past_payload`: an entry of `PAYLOAD_MAX` content bytes as the first entry of a
  fresh file leaves `append_pos` at `in_page_pos() = PAYLOAD_MAX`, and the next append returns that
  offset, which addresses no payload byte.
-/

namespace Hammersbald

/-- Modelled from the spec: `PAYLOAD_MAX`, the payload bytes of a page of the older lineage. -/
def PAYLOAD_MAX : Nat := PAGE_PAYLOAD_SIZE

/-- Modelled from the spec: `Page::offset` of the older lineage, kept in the page's trailer. -/
def Page.offset (pg : Page) : Nat := pg.trailer

@[simp] theorem Page.offset_new (o : Nat) : (Page.new o).offset = o := rfl

@[simp] theorem Page.offset_write (pg : Page) (pos : Nat) (data : List UInt8) :
    (pg.write pos data).offset = pg.offset := rfl

namespace Offset

/-- Modelled from the spec: `Offset::new`, an error above 48 bits. -/
def new (n : Nat) : Except String Nat := if n < 2 ^ 48 then .ok n else .error "offset too big"

/-- Modelled from the spec: `Offset::next_page`, the start of the following page. -/
def nextPage (o : Nat) : Except String Nat := new (PRef.thisPage o + PAGE_SIZE)

theorem new_of_lt {n : Nat} (h : n < 2 ^ 48) : new n = .ok n := if_pos h

end Offset

/-- Modelled from the spec: `U24::new`, an error from `2^24` on. -/
def U24.new (n : Nat) : Except String Nat := if n < 2 ^ 24 then .ok n else .error "U24 too big"

/-- Modelled from the spec: `U24::serialize`, three big-endian bytes. -/
def U24.serialize (n : Nat) : List UInt8 := encodeBE 3 n

/-- `DataType` of `datafile.rs`. -/
inductive DataType where
  | padding
  | transactionOrAppData
  | headerOrBlock
  | tableSpillOver
deriving DecidableEq, Repr

/-- `DataType::from`: every byte but `1`, `2` and `3` is padding. -/
def DataType.fromU8 (b : UInt8) : DataType :=
  if b = 1 then .transactionOrAppData
  else if b = 2 then .headerOrBlock
  else if b = 3 then .tableSpillOver
  else .padding

/-- `DataType::to_u8`. -/
def DataType.toU8 : DataType → UInt8
  | .padding => 0
  | .transactionOrAppData => 1
  | .headerOrBlock => 2
  | .tableSpillOver => 3

@[simp] theorem DataType.fromU8_toU8 (t : DataType) : fromU8 t.toU8 = t := by
  cases t <;> rfl

/-- `DataEntry`. -/
structure DataEntry where
  dataType : DataType
  content : List UInt8
deriving DecidableEq, Repr

/-- `DataFile`: `append_pos`, the page being filled, and the pages handed to the file. -/
structure DataFile where
  appendPos : Nat
  page : Page
  stored : List Page

namespace DataFile

/-- `DataFile::new` over an empty file. -/
def new : DataFile := ⟨0, Page.new 0, []⟩

/-- Modelled from the spec: `len()` of a file that stores each page at its offset. -/
def len (df : DataFile) : Nat := df.stored.foldr (fun pg m => max (pg.offset + PAGE_SIZE) m) 0

/-- The loop of `append_slice` from the payload position `pos`, with `wrote` bytes written and
`rest` to write: the file and the final `wrote`. -/
def appendSliceLoop (df : DataFile) (pos wrote : Nat) (rest : List UInt8) :
    Except String (DataFile × Nat) :=
  if rest = [] then .ok (df, wrote)
  else if pos = PAYLOAD_MAX then
    match Offset.nextPage df.appendPos with
    | .error e => .error e
    | .ok appendPos =>
      appendSliceLoop ⟨appendPos, Page.new appendPos, df.stored ++ [df.page]⟩ 0 wrote rest
  else if PAYLOAD_MAX < pos then .error "attempt to subtract with overflow"
  else
    let have_ := min rest.length (PAYLOAD_MAX - pos)
    appendSliceLoop { df with page := df.page.write pos (rest.take have_) } (pos + have_)
      (wrote + have_) (rest.drop have_)
termination_by 2 * rest.length + if pos = PAYLOAD_MAX then 1 else 0
decreasing_by
  all_goals simp_wf
  · rename_i hmax
    simp [hmax, PAYLOAD_MAX, PAGE_PAYLOAD_SIZE]
  · rename_i hr hmax hlt
    have hne : rest.length ≠ 0 := by simpa using hr
    unfold PAYLOAD_MAX at *
    split <;> omega

/-- `DataFile::append_slice`: `append_pos` moves by the bytes written. -/
def appendSlice (df : DataFile) (slice : List UInt8) : Except String DataFile := do
  let (df, wrote) ← appendSliceLoop df (PRef.inPagePos df.appendPos) 0 slice
  let appendPos ← Offset.new (df.appendPos + wrote)
  pure { df with appendPos }

/-- The first append to a fresh `DataFile` starts at the end of the file, after the magic bytes
of an empty file. -/
def start (df : DataFile) : Except String DataFile :=
  if df.page.offset = 0 ∧ df.appendPos = 0 then
    let df : DataFile := { df with appendPos := df.len, page := Page.new df.len }
    if df.appendPos = 0 then appendSlice df [0xBC, 0xDA] else .ok df
  else .ok df

/-- `DataFile::append`: the entry's type byte, length and content; the offset of the type byte. -/
def append (df : DataFile) (entry : DataEntry) : Except String (DataFile × Nat) := do
  let df ← df.start
  let offset := df.appendPos
  let df ← df.appendSlice [entry.dataType.toU8]
  let len ← U24.new entry.content.length
  let df ← df.appendSlice (U24.serialize len)
  let df ← df.appendSlice entry.content
  pure (df, offset)

/-- `DataFile::flush`: a page with bytes in it goes to the file. -/
def flush (df : DataFile) : DataFile :=
  if 0 < PRef.inPagePos df.appendPos then { df with stored := df.stored ++ [df.page] } else df

/-- A sequence of appends, and the offsets they return. -/
def appendAll (df : DataFile) : List DataEntry → Except String (DataFile × List Nat)
  | [] => .ok (df, [])
  | e :: es => do
    let (df, o) ← df.append e
    let (df, os) ← appendAll df es
    pure (df, o :: os)

/-! ## One pass of the loop -/

theorem appendSliceLoop_nil (df : DataFile) (pos wrote : Nat) :
    appendSliceLoop df pos wrote [] = .ok (df, wrote) := by
  rw [appendSliceLoop, if_pos rfl]

/-- A pass on a full payload hands the page to the file and starts the next one. -/
theorem appendSliceLoop_cross (df : DataFile) (wrote : Nat) {rest : List UInt8} (hr : rest ≠ [])
    {next : Nat} (hn : Offset.nextPage df.appendPos = .ok next) :
    appendSliceLoop df PAYLOAD_MAX wrote rest =
      appendSliceLoop ⟨next, Page.new next, df.stored ++ [df.page]⟩ 0 wrote rest := by
  rw [appendSliceLoop, if_neg hr, if_pos rfl, hn]

/-- A pass inside the payload writes the bytes that fit. -/
theorem appendSliceLoop_write (df : DataFile) {pos : Nat} (wrote : Nat) {rest : List UInt8}
    (hr : rest ≠ []) (hp : pos < PAYLOAD_MAX) :
    appendSliceLoop df pos wrote rest =
      appendSliceLoop { df with page := df.page.write pos (rest.take (min rest.length (PAYLOAD_MAX - pos))) }
        (pos + min rest.length (PAYLOAD_MAX - pos)) (wrote + min rest.length (PAYLOAD_MAX - pos))
        (rest.drop (min rest.length (PAYLOAD_MAX - pos))) := by
  rw [appendSliceLoop, if_neg hr, if_neg (Nat.ne_of_lt hp), if_neg (Nat.not_lt.mpr hp.le)]

/-- A slice that fits in the payload is written in one pass. -/
theorem appendSliceLoop_fits (df : DataFile) (pos wrote : Nat) (rest : List UInt8)
    (hfit : pos + rest.length ≤ PAYLOAD_MAX) :
    appendSliceLoop df pos wrote rest =
      .ok ({ df with page := df.page.write pos rest }, wrote + rest.length) := by
  by_cases hr : rest = []
  · subst hr
    rw [appendSliceLoop_nil]
    simp [Page.write]
  · have hpos : 0 < rest.length := List.length_pos.mpr hr
    have hmin : min rest.length (PAYLOAD_MAX - pos) = rest.length := Nat.min_eq_left (by omega)
    rw [appendSliceLoop_write df wrote hr (by omega), hmin, List.take_length, List.drop_length,
      appendSliceLoop_nil]

/-- A slice that crosses one payload boundary: the bytes that fit end the page, which goes to
the file, and the others start the next page. -/
theorem appendSliceLoop_cross_once (df : DataFile) {pos : Nat} (wrote : Nat) {rest : List UInt8}
    (hp : pos < PAYLOAD_MAX) (hover : PAYLOAD_MAX < pos + rest.length)
    (hrest : pos + rest.length ≤ 2 * PAYLOAD_MAX) {next : Nat}
    (hn : Offset.nextPage df.appendPos = .ok next) :
    appendSliceLoop df pos wrote rest =
      .ok (⟨next, (Page.new next).write 0 (rest.drop (PAYLOAD_MAX - pos)),
        df.stored ++ [df.page.write pos (rest.take (PAYLOAD_MAX - pos))]⟩, wrote + rest.length) := by
  have hr : rest ≠ [] := by intro h; subst h; simp at hover; omega
  have hmin : min rest.length (PAYLOAD_MAX - pos) = PAYLOAD_MAX - pos := Nat.min_eq_right (by omega)
  have hr' : rest.drop (PAYLOAD_MAX - pos) ≠ [] := by
    intro h; have := congrArg List.length h; simp at this; omega
  have hn' : Offset.nextPage ({ df with page := df.page.write pos (rest.take (PAYLOAD_MAX - pos)) } :
      DataFile).appendPos = .ok next := hn
  rw [appendSliceLoop_write df wrote hr hp, hmin, Nat.add_sub_cancel' hp.le,
    appendSliceLoop_cross _ _ hr' hn', appendSliceLoop_fits _ 0 _ _ (by simp; omega)]
  simp only [List.length_drop, Except.ok.injEq, Prod.mk.injEq, true_and]
  omega

/-- The loop writes every byte of the slice, and `append_pos` only moves forward. -/
theorem appendSliceLoop_ok {df df' : DataFile} {pos wrote w : Nat} {rest : List UInt8}
    (h : appendSliceLoop df pos wrote rest = .ok (df', w)) :
    w = wrote + rest.length ∧ df.appendPos ≤ df'.appendPos := by
  induction df, pos, wrote, rest using appendSliceLoop.induct generalizing df' w with
  | case1 df pos wrote =>
    rw [appendSliceLoop_nil] at h
    cases h
    exact ⟨rfl, le_rfl⟩
  | case2 df wrote rest hr e hn =>
    rw [appendSliceLoop, if_neg hr, if_pos rfl, hn] at h
    cases h
  | case3 df wrote rest hr next hn ih =>
    rw [appendSliceLoop_cross df wrote hr hn] at h
    obtain ⟨hw, hle⟩ := ih h
    refine ⟨hw, le_trans ?_ hle⟩
    unfold Offset.nextPage Offset.new at hn
    split_ifs at hn
    cases hn
    have := PRef.thisPage_add_inPagePos df.appendPos
    have := PRef.inPagePos_lt df.appendPos
    show df.appendPos ≤ PRef.thisPage df.appendPos + PAGE_SIZE
    omega
  | case4 df pos wrote rest hr hmax hlt =>
    rw [appendSliceLoop, if_neg hr, if_neg hmax, if_pos hlt] at h
    cases h
  | case5 df pos wrote rest hr hmax hlt have_ =>
    rename_i ih
    rw [appendSliceLoop, if_neg hr, if_neg hmax, if_neg hlt] at h
    obtain ⟨hw, hle⟩ := ih h
    refine ⟨?_, hle⟩
    rw [hw, List.length_drop]
    have : min rest.length (PAYLOAD_MAX - pos) ≤ rest.length := Nat.min_le_left _ _
    omega

/-! ## `append_slice` -/

theorem nextPage_of_lt {o : Nat} (h : PRef.thisPage o + PAGE_SIZE < 2 ^ 48) :
    Offset.nextPage o = .ok (PRef.thisPage o + PAGE_SIZE) :=
  Offset.new_of_lt h

/-- A slice that fits in the payload moves `append_pos` by its length. -/
theorem appendSlice_fits (df : DataFile) {slice : List UInt8}
    (hfit : PRef.inPagePos df.appendPos + slice.length ≤ PAYLOAD_MAX)
    (hlt : df.appendPos + slice.length < 2 ^ 48) :
    df.appendSlice slice = .ok ⟨df.appendPos + slice.length,
      df.page.write (PRef.inPagePos df.appendPos) slice, df.stored⟩ := by
  simp only [appendSlice, appendSliceLoop_fits _ _ 0 _ hfit, Nat.zero_add, bind, Except.bind,
    Offset.new_of_lt hlt, pure, Except.pure]

/-- A slice that crosses a payload boundary sets `append_pos` to the next page start plus the
whole slice length, while only `slice.length - (PAYLOAD_MAX - in_page_pos)` bytes are on that
page. -/
theorem appendSlice_cross (df : DataFile) {slice : List UInt8}
    (hp : PRef.inPagePos df.appendPos < PAYLOAD_MAX)
    (hover : PAYLOAD_MAX < PRef.inPagePos df.appendPos + slice.length)
    (hrest : PRef.inPagePos df.appendPos + slice.length ≤ 2 * PAYLOAD_MAX)
    (hlt : PRef.thisPage df.appendPos + PAGE_SIZE + slice.length < 2 ^ 48) :
    df.appendSlice slice = .ok
      ⟨PRef.thisPage df.appendPos + PAGE_SIZE + slice.length,
        (Page.new (PRef.thisPage df.appendPos + PAGE_SIZE)).write 0
          (slice.drop (PAYLOAD_MAX - PRef.inPagePos df.appendPos)),
        df.stored ++ [df.page.write (PRef.inPagePos df.appendPos)
          (slice.take (PAYLOAD_MAX - PRef.inPagePos df.appendPos))]⟩ := by
  simp only [appendSlice, appendSliceLoop_cross_once _ _ hp hover hrest
    (nextPage_of_lt (o := df.appendPos) (by omega)), Nat.zero_add, bind, Except.bind,
    Offset.new_of_lt hlt, pure, Except.pure]

/-- A slice that starts on a full payload goes to the start of the next page, whole. -/
theorem appendSlice_at_end (df : DataFile) {slice : List UInt8}
    (hp : PRef.inPagePos df.appendPos = PAYLOAD_MAX) (hr : slice ≠ [])
    (hfit : slice.length ≤ PAYLOAD_MAX)
    (hlt : PRef.thisPage df.appendPos + PAGE_SIZE + slice.length < 2 ^ 48) :
    df.appendSlice slice = .ok
      ⟨PRef.thisPage df.appendPos + PAGE_SIZE + slice.length,
        (Page.new (PRef.thisPage df.appendPos + PAGE_SIZE)).write 0 slice,
        df.stored ++ [df.page]⟩ := by
  simp only [appendSlice, hp, appendSliceLoop_cross _ _ hr (nextPage_of_lt (o := df.appendPos)
    (by omega)), appendSliceLoop_fits _ 0 _ slice (by simpa using hfit), Nat.zero_add, bind,
    Except.bind, Offset.new_of_lt hlt, pure, Except.pure]

/-- `append_slice` moves `append_pos` forward by the slice length at least. -/
theorem appendSlice_ok {df df' : DataFile} {slice : List UInt8} (h : df.appendSlice slice = .ok df') :
    df.appendPos + slice.length ≤ df'.appendPos := by
  simp only [appendSlice, bind, Except.bind] at h
  split at h
  · cases h
  · rename_i r hloop
    obtain ⟨hw, hle⟩ := appendSliceLoop_ok hloop
    unfold Offset.new at h
    split_ifs at h
    cases h
    simp only [Nat.zero_add] at hw
    show df.appendPos + slice.length ≤ r.1.appendPos + r.2
    omega

/-! ## `append` -/

theorem start_ok {df df' : DataFile} (h : df.start = .ok df') :
    df.appendPos ≤ df'.appendPos ∧ (df.appendPos ≠ 0 → df' = df) := by
  unfold start at h
  dsimp only at h
  split_ifs at h with hc hz
  · exact ⟨by rw [hc.2]; exact Nat.zero_le _, fun h0 => absurd hc.2 h0⟩
  · exact ⟨by rw [hc.2]; exact Nat.zero_le _, fun h0 => absurd hc.2 h0⟩
  · cases h; exact ⟨le_rfl, fun _ => rfl⟩

/-- The first append to a fresh file writes the magic bytes first. -/
theorem start_new : new.start = .ok ⟨2, (Page.new 0).write 0 [0xBC, 0xDA], []⟩ := by
  exact @appendSlice_fits ⟨0, Page.new 0, []⟩ [0xBC, 0xDA] (by decide) (by decide)

/-- Once the file has started, `start` does nothing. -/
theorem start_of_offset {df : DataFile} (h : df.page.offset ≠ 0) : df.start = .ok df := by
  unfold start
  rw [if_neg (fun hc => h hc.1)]

/-- `append` returns an offset at or after `append_pos`, four bytes or more below the new
`append_pos`, and at `append_pos` once the file has started. -/
theorem append_ok {df df' : DataFile} {e : DataEntry} {o : Nat} (h : df.append e = .ok (df', o)) :
    df.appendPos ≤ o ∧ o + 4 ≤ df'.appendPos ∧ (df.appendPos ≠ 0 → o = df.appendPos) := by
  simp only [append, bind, Except.bind] at h
  split at h; · cases h
  rename_i d₁ h₁
  split at h; · cases h
  rename_i d₂ h₂
  split at h; · cases h
  rename_i n hn
  split at h; · cases h
  rename_i d₃ h₃
  split at h; · cases h
  rename_i d₄ h₄
  cases h
  obtain ⟨hs₁, hs₂⟩ := start_ok h₁
  have e₂ := appendSlice_ok h₂
  have e₃ := appendSlice_ok h₃
  have e₄ := appendSlice_ok h₄
  simp only [U24.serialize, length_encodeBE, List.length_singleton] at e₂ e₃ e₄
  exact ⟨hs₁, by omega, fun h0 => by rw [hs₂ h0]⟩

/-! ## A first entry that fills the first page -/

/-- A first entry of `PAYLOAD_MAX` content bytes: the magic bytes, the type byte and the length
take the first six bytes of page 0, so the content crosses into page 1 and `append_pos` ends at
`PAGE_SIZE + PAYLOAD_MAX`, the whole content length past the start of page 1. -/
theorem append_first_full {c : List UInt8} (hc : c.length = PAYLOAD_MAX) (t : DataType) :
    ∃ df, new.append ⟨t, c⟩ = .ok (df, 2) ∧ df.appendPos = PAGE_SIZE + PAYLOAD_MAX ∧
      df.page.offset = PAGE_SIZE := by
  simp only [append, start_new, bind, Except.bind]
  rw [appendSlice_fits]
  simp only [List.length_singleton, U24.new, hc, if_pos (show PAYLOAD_MAX < 2 ^ 24 by decide)]
  rw [appendSlice_fits]; simp only [U24.serialize, length_encodeBE]
  rw [appendSlice_cross]
  · simp only [hc, pure, Except.pure, Except.ok.injEq, Prod.mk.injEq, and_true, exists_eq_left',
      Page.offset_write, Page.offset_new]
    decide
  all_goals simp [PRef.inPagePos, PRef.thisPage, PAGE_SIZE, PAYLOAD_MAX, PAGE_PAYLOAD_SIZE, hc,
    U24.serialize]

/-- An empty entry appended at `PAGE_SIZE + PAYLOAD_MAX` returns that position: its type byte goes
to the next page, and nothing moves the returned offset there. -/
theorem append_empty_at_end {df : DataFile} (hp : df.appendPos = PAGE_SIZE + PAYLOAD_MAX)
    (ho : df.page.offset = PAGE_SIZE) (t : DataType) :
    ∃ df', df.append ⟨t, []⟩ = .ok (df', PAGE_SIZE + PAYLOAD_MAX) := by
  simp only [append, start_of_offset (ho ▸ by decide : df.page.offset ≠ 0), bind, Except.bind, hp]
  rw [appendSlice_at_end]
  simp only [List.length_singleton, List.length_nil, U24.new, if_pos (show 0 < 2 ^ 24 by decide),
    U24.serialize]
  rw [appendSlice_fits]; simp only [length_encodeBE]
  rw [appendSlice_fits]
  · exact ⟨_, rfl⟩
  all_goals simp [PRef.inPagePos, PRef.thisPage, PAGE_SIZE, PAYLOAD_MAX, PAGE_PAYLOAD_SIZE, hp]

/-- The two appends in a row: the offsets `2` and `PAGE_SIZE + PAYLOAD_MAX`. -/
theorem appendAll_full_then_empty (t t' : DataType) :
    ∃ df', new.appendAll [⟨t, List.replicate PAYLOAD_MAX 0⟩, ⟨t', []⟩] =
      .ok (df', [2, PAGE_SIZE + PAYLOAD_MAX]) := by
  obtain ⟨df, h₁, hp, ho⟩ := append_first_full (List.length_replicate PAYLOAD_MAX (0 : UInt8)) t
  obtain ⟨df', h₂⟩ := append_empty_at_end hp ho t'
  refine ⟨df', ?_⟩
  rw [appendAll, h₁]; simp only [bind, Except.bind]
  rw [appendAll, h₂]; rfl

/-! ## Offsets increase -/

/-- The offsets a sequence of successful appends returns are strictly increasing, none below
the starting `append_pos`, and each four bytes or more below the final `append_pos`, which is at
or after the starting one. -/
theorem appendAll_offsets_increasing {df df' : DataFile} {es : List DataEntry} {os : List Nat}
    (h : df.appendAll es = .ok (df', os)) :
    os.Chain' (· < ·) ∧ (∀ o ∈ os, df.appendPos ≤ o ∧ o + 4 ≤ df'.appendPos) ∧
      df.appendPos ≤ df'.appendPos := by
  induction es generalizing df df' os with
  | nil =>
    simp only [appendAll, Except.ok.injEq, Prod.mk.injEq] at h
    obtain ⟨rfl, rfl⟩ := h
    exact ⟨trivial, (fun o ho => by cases ho), le_rfl⟩
  | cons e es ih =>
    simp only [appendAll, bind, Except.bind] at h
    split at h; · cases h
    rename_i r₁ h₁
    split at h; · cases h
    rename_i r₂ h₂
    simp only [pure, Except.pure, Except.ok.injEq, Prod.mk.injEq] at h
    obtain ⟨rfl, rfl⟩ := h
    obtain ⟨hchain, hall, hmono⟩ := ih h₂
    obtain ⟨ho₁, ho₂, -⟩ := append_ok h₁
    refine ⟨hchain.cons' fun y hy => ?_, fun o ho => ?_, by omega⟩
    · have := (hall y (List.mem_of_mem_head? hy)).1
      omega
    · rcases List.mem_cons.mp ho with rfl | ho
      · exact ⟨ho₁, by omega⟩
      · have := hall o ho
        omega

theorem appendAll_offsets_increasing_full_then_empty :
    ∃ df', new.appendAll [⟨.transactionOrAppData, List.replicate PAYLOAD_MAX 0⟩,
        ⟨.transactionOrAppData, []⟩] = .ok (df', [2, PAGE_SIZE + PAYLOAD_MAX]) ∧
      [2, PAGE_SIZE + PAYLOAD_MAX].Chain' (· < ·) ∧
      ∀ o ∈ [2, PAGE_SIZE + PAYLOAD_MAX], new.appendPos ≤ o ∧ o + 4 ≤ df'.appendPos := by
  obtain ⟨df', h⟩ := appendAll_full_then_empty .transactionOrAppData .transactionOrAppData
  exact ⟨df', h, (appendAll_offsets_increasing h).1, (appendAll_offsets_increasing h).2.1⟩

/-! ## An offset past the payload -/

/-- A first entry of `PAYLOAD_MAX` content bytes leaves `append_pos` at `PAGE_SIZE + PAYLOAD_MAX`,
whose `in_page_pos()` is `PAYLOAD_MAX`, and the next append returns that offset. -/
theorem append_offset_past_payload (t : DataType) :
    (new.appendAll [⟨.transactionOrAppData, List.replicate PAYLOAD_MAX 0⟩, ⟨t, []⟩]).map Prod.snd =
        .ok [2, PAGE_SIZE + PAYLOAD_MAX] ∧
      PRef.inPagePos (PAGE_SIZE + PAYLOAD_MAX) = PAYLOAD_MAX := by
  obtain ⟨df', h⟩ := appendAll_full_then_empty .transactionOrAppData t
  exact ⟨by rw [h]; rfl, by decide⟩

/-! ## `&mut self` across an `Err`

`DataFile::append` takes `&mut self`: a call that returns `Err` keeps what it wrote before the
failing step.  `DataFileM` runs a method so, and `appendMut` is `append` run so. -/

/-- The loop of `append_slice` on `&mut DataFile`: the result, and the state the loop leaves, also
when it returns `Err`.  A full page goes to the file before `next_page` is computed. -/
def appendSliceLoopMut (df : DataFile) (pos wrote : Nat) (rest : List UInt8) :
    Except String Nat × DataFile :=
  if rest = [] then (.ok wrote, df)
  else if pos = PAYLOAD_MAX then
    match Offset.nextPage df.appendPos with
    | .error e => (.error e, { df with stored := df.stored ++ [df.page] })
    | .ok appendPos =>
      appendSliceLoopMut ⟨appendPos, Page.new appendPos, df.stored ++ [df.page]⟩ 0 wrote rest
  else if PAYLOAD_MAX < pos then (.error "attempt to subtract with overflow", df)
  else
    let have_ := min rest.length (PAYLOAD_MAX - pos)
    appendSliceLoopMut { df with page := df.page.write pos (rest.take have_) } (pos + have_)
      (wrote + have_) (rest.drop have_)
termination_by 2 * rest.length + if pos = PAYLOAD_MAX then 1 else 0
decreasing_by
  all_goals simp_wf
  · rename_i hmax
    simp [hmax, PAYLOAD_MAX, PAGE_PAYLOAD_SIZE]
  · rename_i hr hmax hlt
    have hne : rest.length ≠ 0 := by simpa using hr
    unfold PAYLOAD_MAX at *
    split <;> omega

/-- A call on `&mut DataFile` that returns a `Result`, as `Except`: the state is dropped on `Err`. -/
def okState {α : Type} (r : Except String α × DataFile) : Except String (DataFile × α) :=
  r.1.map (r.2, ·)

/-- The loop of the `Except` model is the loop on `&mut DataFile` with the state dropped on `Err`. -/
theorem appendSliceLoop_eq_okState (df : DataFile) (pos wrote : Nat) (rest : List UInt8) :
    appendSliceLoop df pos wrote rest = okState (appendSliceLoopMut df pos wrote rest) := by
  induction df, pos, wrote, rest using appendSliceLoop.induct with
  | case1 df pos wrote =>
    rw [appendSliceLoop_nil, appendSliceLoopMut, if_pos rfl]; rfl
  | case2 df wrote rest hr e hn =>
    rw [appendSliceLoop, appendSliceLoopMut, if_neg hr, if_pos rfl, if_neg hr, if_pos rfl, hn]; rfl
  | case3 df wrote rest hr next hn ih =>
    rw [appendSliceLoopMut, if_neg hr, if_pos rfl, hn, appendSliceLoop_cross df wrote hr hn, ih]
  | case4 df pos wrote rest hr hmax hlt =>
    rw [appendSliceLoop, appendSliceLoopMut, if_neg hr, if_neg hmax, if_pos hlt, if_neg hr,
      if_neg hmax, if_pos hlt]; rfl
  | case5 df pos wrote rest hr hmax hlt have_ ih =>
    rw [appendSliceLoop, appendSliceLoopMut, if_neg hr, if_neg hmax, if_neg hlt, if_neg hr,
      if_neg hmax, if_neg hlt]
    exact ih

/-- A method on `&mut DataFile` that returns a `Result`: the state it leaves stays, also when it
returns `Err`. -/
abbrev DataFileM := ExceptT String (StateM DataFile)

/-- A call on a `DataFile`: its result and the state it leaves. -/
def runM {α : Type} (x : DataFileM α) (df : DataFile) : Except String α × DataFile := x.run.run df

theorem runM_bind {α β : Type} (x : DataFileM α) (f : α → DataFileM β) (df : DataFile) :
    runM (x >>= f) df =
      match runM x df with
      | (.ok a, df') => runM (f a) df'
      | (.error e, df') => (.error e, df') := by
  simp only [runM, bind, ExceptT.bind, ExceptT.run, ExceptT.mk, StateT.run, StateT.bind]
  rcases x df with ⟨_ | _, _⟩ <;> rfl

/-- `append_slice` on `&mut DataFile`: the loop, then `append_pos` moved by the bytes written. -/
def appendSliceMut (slice : List UInt8) : DataFileM Unit := do
  let wrote ← ExceptT.mk fun df => appendSliceLoopMut df (PRef.inPagePos df.appendPos) 0 slice
  let df ← get
  let appendPos ← MonadExcept.ofExcept (Offset.new (df.appendPos + wrote))
  set { df with appendPos }

/-- The start of `DataFile::append` on `&mut DataFile`. -/
def startMut : DataFileM Unit := do
  let df ← get
  if df.page.offset = 0 ∧ df.appendPos = 0 then
    set { df with appendPos := df.len, page := Page.new df.len }
    if df.len = 0 then appendSliceMut [0xBC, 0xDA]

/-- `DataFile::append` on `&mut DataFile`: what the slices written before an `Err` stays. -/
def appendMut (entry : DataEntry) : DataFileM Nat := do
  startMut
  let offset := (← get).appendPos
  appendSliceMut [entry.dataType.toU8]
  let len ← MonadExcept.ofExcept (U24.new entry.content.length)
  appendSliceMut (U24.serialize len)
  appendSliceMut entry.content
  pure offset

@[simp] theorem runM_pure {α : Type} (a : α) (df : DataFile) : runM (pure a) df = (.ok a, df) := rfl

@[simp] theorem runM_get (df : DataFile) : runM get df = (.ok df, df) := rfl

@[simp] theorem runM_set (df df' : DataFile) : runM (set df') df = (.ok (), df') := rfl

@[simp] theorem runM_mk {α : Type} (f : DataFile → Except String α × DataFile) (df : DataFile) :
    runM (ExceptT.mk f) df = f df := rfl

@[simp] theorem runM_ofExcept {α : Type} (x : Except String α) (df : DataFile) :
    runM (MonadExcept.ofExcept x) df = (x, df) := by
  cases x <;> rfl

/-- `append_slice` of the `Except` model is `append_slice` on `&mut DataFile` with the state dropped
on `Err`. -/
theorem appendSlice_eq_okState (df : DataFile) (slice : List UInt8) :
    df.appendSlice slice = (okState (runM (appendSliceMut slice) df)).map Prod.fst := by
  simp only [appendSlice, appendSliceMut, appendSliceLoop_eq_okState, runM_bind, runM_mk, runM_get,
    runM_ofExcept, runM_set]
  rcases appendSliceLoopMut df (PRef.inPagePos df.appendPos) 0 slice with ⟨_ | wrote, df'⟩
  · rfl
  · dsimp only [okState, Except.map, bind, Except.bind]
    cases Offset.new (df'.appendPos + wrote) <;> rfl

theorem start_eq_okState (df : DataFile) :
    df.start = (okState (runM startMut df)).map Prod.fst := by
  simp only [start, startMut, runM_bind, runM_get]
  split_ifs
  · simp only [runM_bind, runM_set, ← appendSlice_eq_okState]
  all_goals rfl

/-- `append` of the `Except` model is `append` on `&mut DataFile` with the state dropped on `Err`:
the two agree on every call that returns `Ok`, and on which calls return `Err`. -/
theorem append_eq_okState (df : DataFile) (entry : DataEntry) :
    df.append entry = okState (runM (appendMut entry) df) := by
  simp only [append, appendMut, start_eq_okState, appendSlice_eq_okState, runM_bind, runM_get,
    runM_ofExcept, runM_pure]
  rcases runM startMut df with ⟨_ | _, d₁⟩
  · rfl
  dsimp only [okState, Except.map, bind, Except.bind]
  rcases runM (appendSliceMut [entry.dataType.toU8]) d₁ with ⟨_ | _, d₂⟩
  · rfl
  dsimp only
  cases U24.new entry.content.length with
  | error => rfl
  | ok len =>
    dsimp only
    rcases runM (appendSliceMut (U24.serialize len)) d₂ with ⟨_ | _, d₃⟩
    · rfl
    dsimp only
    rcases runM (appendSliceMut entry.content) d₃ with ⟨_ | _, d₄⟩ <;> rfl

theorem eq_of_okState {α : Type} {r : Except String α × DataFile} {df : DataFile} {a : α}
    (h : okState r = .ok (df, a)) : r = (.ok a, df) := by
  rcases r with ⟨_ | _, _⟩ <;> cases h; rfl

/-- A successful `append` of the `Except` model is the same call on `&mut DataFile`. -/
theorem runM_appendMut_of_ok {df df' : DataFile} {entry : DataEntry} {o : Nat}
    (h : df.append entry = .ok (df', o)) : runM (appendMut entry) df = (.ok o, df') :=
  eq_of_okState (append_eq_okState df entry ▸ h)

theorem eq_of_okState_unit {r : Except String Unit × DataFile} {df : DataFile}
    (h : (okState r).map Prod.fst = .ok df) : r = (.ok (), df) := by
  rcases r with ⟨_ | ⟨⟩, _⟩ <;> cases h; rfl

/-- An entry of `2^24` content bytes or more: `append` writes its type byte, then returns the `Err`
of `U24::new` and keeps the byte. -/
theorem appendMut_of_too_long {df df₀ df₁ : DataFile} {entry : DataEntry} (hs : df.start = .ok df₀)
    (h₁ : df₀.appendSlice [entry.dataType.toU8] = .ok df₁) (hc : 2 ^ 24 ≤ entry.content.length) :
    runM (appendMut entry) df = (.error "U24 too big", df₁) := by
  rw [start_eq_okState] at hs
  rw [appendSlice_eq_okState] at h₁
  simp only [appendMut, runM_bind, eq_of_okState_unit hs, runM_get, eq_of_okState_unit h₁,
    runM_ofExcept, U24.new, if_neg (Nat.not_lt.mpr hc)]

end DataFile

end Hammersbald
