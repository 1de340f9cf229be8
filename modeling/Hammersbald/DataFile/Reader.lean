import Hammersbald.DataFile.Writer

/-!
# The reader of `DataFile`

`DataFile::data_iter` reads the file back page by page.  A `PageIterator` yields the pages at
offsets `0, PAGE_SIZE, 2 * PAGE_SIZE, …` until the first one the file does not hold, and a
`DataIterator` walks their payloads as one stream: `next` skips the magic bytes of the first page,
then padding bytes up to a type byte, reads a three-byte length and that many content bytes,
moving to the next page wherever a payload ends.

The model.

* `readPage` is a file that stores each page handed to `append_page` at the page's own offset,
  the page written last at an offset being the one read.
* `pageIter` is the sequence of pages a `PageIterator` yields.  `DataIterator` holds the pages it
  has still to yield, the current page and the position in it.
* `scanType`, `skipPadding`, `readSlice` and `next` follow the loops of `datafile.rs`.

The results.

* `next_pos_le`, `iterate_next_pos_le`: every position the iterator reaches is at most
  `PAYLOAD_MAX`, so `PAYLOAD_MAX - self.pos` never underflows.
* `nexts_new`: over pages whose payloads, read as one stream, are the magic bytes, the encodings of
  `e₁ … eₙ` (none of type padding, each shorter than `2^24` bytes) and then padding bytes, the
  iterator yields exactly `e₁ … eₙ` and then `None`.
-/

namespace Hammersbald

/-- Modelled from the spec: `U24::from_slice`, three big-endian bytes. -/
def U24.fromSlice (bytes : List UInt8) : Nat := decodeBE bytes

/-- The bytes `DataFile::append` writes for an entry: its type byte, its length as three
big-endian bytes, and its content. -/
def DataEntry.encode (e : DataEntry) : List UInt8 :=
  e.dataType.toU8 :: U24.serialize e.content.length ++ e.content

/-- The payloads of a sequence of pages, read as one stream. -/
def payloads (pages : List Page) : List UInt8 := (pages.map Page.payload).flatten

@[simp] theorem payloads_nil : payloads [] = [] := rfl

@[simp] theorem payloads_cons (pg : Page) (pages : List Page) :
    payloads (pg :: pages) = pg.payload ++ payloads pages := rfl

theorem payloads_append (pages pages' : List Page) :
    payloads (pages ++ pages') = payloads pages ++ payloads pages' := by
  simp [payloads]

@[simp] theorem length_payload (pg : Page) : pg.payload.length = PAYLOAD_MAX := pg.payload_length

@[simp] theorem length_payloads (pages : List Page) :
    (payloads pages).length = pages.length * PAYLOAD_MAX := by
  induction pages with
  | nil => rfl
  | cons pg pages ih => simp [ih, Nat.succ_mul, Nat.add_comm]

/-- Modelled from the spec: `read_page` of a file that stores each page handed to `append_page` at
the page's own offset; of two pages at one offset the one written last is read. -/
def DataFile.readPage (stored : List Page) (offset : Nat) : Option Page :=
  stored.reverse.find? (fun pg => pg.offset == offset)

/-- `PageIterator` started at `pagenumber`: the pages its `next` yields before the first `None`.
The bound is `(1 << 47) / PAGE_SIZE`. -/
def pageIter (file : Nat → Option Page) (pagenumber : Nat) : List Page :=
  if pagenumber < 2 ^ 47 / PAGE_SIZE then
    match file (pagenumber * PAGE_SIZE) with
    | some pg => pg :: pageIter file (pagenumber + 1)
    | none => []
  else []
termination_by 2 ^ 47 / PAGE_SIZE - pagenumber
decreasing_by simp only [PAGE_SIZE] at *; omega

/-- A file whose pages `0 … n-1` are stored, each at its own offset, reads back page `i` at offset
`i * PAGE_SIZE`. -/
theorem DataFile.readPage_eq {stored : List Page}
    (h : stored.map Page.offset = (List.range stored.length).map (· * PAGE_SIZE)) (i : Nat) :
    DataFile.readPage stored (i * PAGE_SIZE) = stored[i]? := by
  induction stored using List.reverseRecOn with
  | nil => rfl
  | append_singleton ps p ih =>
    rw [List.length_append, List.length_singleton, List.range_succ, List.map_append,
      List.map_append] at h
    obtain ⟨hps, hp⟩ := List.append_inj h (by simp)
    simp only [List.map_cons, List.map_nil, List.cons.injEq, and_true] at hp
    simp only [DataFile.readPage, List.reverse_append, List.reverse_singleton, List.singleton_append,
      List.find?_cons, hp]
    by_cases hi : i = ps.length
    · subst hi; simp
    · have hne : (ps.length * PAGE_SIZE == i * PAGE_SIZE) = false := by
        simp only [beq_eq_false_iff_ne, ne_eq, Nat.mul_right_cancel_iff (by decide : 0 < PAGE_SIZE)]
        exact Ne.symm hi
      rw [hne]
      rw [DataFile.readPage] at ih
      rw [ih hps]
      rcases Nat.lt_or_gt_of_ne hi with hlt | hgt
      · rw [List.getElem?_append_left hlt]
      · rw [List.getElem?_eq_none (by omega), List.getElem?_eq_none (by simp; omega)]

/-- Over a file whose pages are stored at consecutive offsets, `PageIterator` yields them all, in
order. -/
theorem pageIter_readPage {stored : List Page}
    (h : stored.map Page.offset = (List.range stored.length).map (· * PAGE_SIZE))
    (hn : stored.length ≤ 2 ^ 47 / PAGE_SIZE) (k : Nat) :
    pageIter (DataFile.readPage stored) k = stored.drop k := by
  obtain ⟨m, hm⟩ : ∃ m, stored.length - k = m := ⟨_, rfl⟩
  induction m generalizing k with
  | zero =>
    rw [pageIter, List.drop_of_length_le (by omega)]
    split_ifs
    · rw [DataFile.readPage_eq h, List.getElem?_eq_none (by omega)]
    · rfl
  | succ m ih =>
    rw [pageIter, if_pos (by omega), DataFile.readPage_eq h, List.getElem?_eq_getElem (by omega),
      ih (k + 1) (by omega)]
    exact (List.drop_eq_getElem_cons _).symm

/-- `DataIterator`: the pages `page_iterator` has still to yield, `current` and `pos`. -/
structure DataIterator where
  pages : List Page
  current : Option Page
  pos : Nat

namespace DataIterator

/-- `DataIterator::new`. -/
def new (pages : List Page) : DataIterator := ⟨pages, none, 0⟩

end DataIterator

/-- `DataFile::data_iter`: a `DataIterator` over the file's pages from page 0. -/
def DataFile.dataIter (df : DataFile) : DataIterator :=
  .new (pageIter (DataFile.readPage df.stored) 0)

namespace DataIterator

/-- The inner `while` of `skip_padding` over the current page: the first type at or after `pos`
that is not padding, and the position after its byte. -/
def scanType (pg : Page) (pos : Nat) : Option (DataType × Nat) :=
  if pos < PAYLOAD_MAX then
    if DataType.fromU8 (pg.payload.getD pos 0) ≠ .padding then
      some (DataType.fromU8 (pg.payload.getD pos 0), pos + 1)
    else scanType pg (pos + 1)
  else none
termination_by PAYLOAD_MAX - pos

/-- `skip_padding`: scan the current page, then each next page from its start. -/
def skipPadding (pages : List Page) (current : Option Page) (pos : Nat) :
    Option DataType × DataIterator :=
  match current with
  | none => (none, ⟨pages, none, pos⟩)
  | some pg =>
    match scanType pg pos with
    | some (dataType, pos) => (some dataType, ⟨pages, some pg, pos⟩)
    | none =>
      match pages with
      | [] => (none, ⟨[], none, 0⟩)
      | pg' :: pages => skipPadding pages (some pg') 0

/-- `read_slice` of `n` bytes: the bytes, or `None` when the pages run out first. -/
def readSlice (pages : List Page) (current : Option Page) (pos n : Nat) :
    Option (List UInt8) × DataIterator :=
  match current with
  | none => (none, ⟨pages, none, pos⟩)
  | some pg =>
    if min (PAYLOAD_MAX - pos) n = n then (some (pg.read pos n), ⟨pages, some pg, pos + n⟩)
    else
      match pages with
      | [] => (none, ⟨[], none, 0⟩)
      | pg' :: pages =>
        let r := readSlice pages (some pg') 0 (n - (PAYLOAD_MAX - pos))
        (r.1.map (pg.read pos (PAYLOAD_MAX - pos) ++ ·), r.2)

/-- The body of `DataIterator::next` once a page is current: padding, the type byte, the
length and the content. -/
def readEntry (pages : List Page) (pg : Page) (pos : Nat) : Option DataEntry × DataIterator :=
  match skipPadding pages (some pg) pos with
  | (none, it) => (none, it)
  | (some dataType, it) =>
    match readSlice it.pages it.current it.pos 3 with
    | (none, it) => (none, it)
    | (some size, it) =>
      match readSlice it.pages it.current it.pos (U24.fromSlice size) with
      | (none, it) => (none, it)
      | (some content, it) => (some ⟨dataType, content⟩, it)

/-- `DataIterator::next`: on the first call the first page, past its magic bytes. -/
def next (it : DataIterator) : Option DataEntry × DataIterator :=
  let it : DataIterator := if it.current.isNone then ⟨it.pages.tail, it.pages.head?, 2⟩ else it
  match it.current with
  | some pg => readEntry it.pages pg it.pos
  | none => (none, it)

/-- The first `k` results of `next`. -/
def nexts : Nat → DataIterator → List (Option DataEntry)
  | 0, _ => []
  | k + 1, it => (next it).1 :: nexts k (next it).2

@[simp] theorem next_of_current {pages : List Page} {pg : Page} {pos : Nat} :
    next ⟨pages, some pg, pos⟩ = readEntry pages pg pos := rfl

theorem next_new (pg : Page) (pages : List Page) :
    next (new (pg :: pages)) = readEntry pages pg 2 := rfl

/-! ## Positions stay within the payload -/

theorem scanType_pos_le {pg : Page} {pos : Nat} {t : DataType} {pos' : Nat}
    (h : scanType pg pos = some (t, pos')) : pos' ≤ PAYLOAD_MAX := by
  rw [scanType] at h
  split_ifs at h with hlt hne
  · cases h; omega
  · exact scanType_pos_le h
termination_by PAYLOAD_MAX - pos

theorem skipPadding_pos_le {pages : List Page} {current : Option Page} {pos : Nat}
    {r : Option DataType} {it : DataIterator} (h : pos ≤ PAYLOAD_MAX)
    (hr : skipPadding pages current pos = (r, it)) : it.pos ≤ PAYLOAD_MAX := by
  induction pages generalizing current pos with
  | nil =>
    rcases current with _ | pg
    · cases hr; exact h
    · simp only [skipPadding] at hr
      split at hr
      · cases hr; exact scanType_pos_le ‹_›
      · cases hr; exact Nat.zero_le _
  | cons pg' pages ih =>
    rcases current with _ | pg
    · cases hr; exact h
    · simp only [skipPadding] at hr
      split at hr
      · cases hr; exact scanType_pos_le ‹_›
      · exact ih (Nat.zero_le _) hr

theorem readSlice_pos_le {pages : List Page} {current : Option Page} {pos n : Nat}
    {r : Option (List UInt8)} {it : DataIterator} (h : pos ≤ PAYLOAD_MAX)
    (hr : readSlice pages current pos n = (r, it)) : it.pos ≤ PAYLOAD_MAX := by
  induction pages generalizing current pos n r with
  | nil =>
    rcases current with _ | pg
    · cases hr; exact h
    · simp only [readSlice] at hr
      split_ifs at hr <;> cases hr <;> dsimp only <;> omega
  | cons pg' pages ih =>
    rcases current with _ | pg
    · cases hr; exact h
    · simp only [readSlice] at hr
      split_ifs at hr
      · cases hr; dsimp only; omega
      · cases hr; exact ih (Nat.zero_le _) rfl

theorem readEntry_pos_le {pages : List Page} {pg : Page} {pos : Nat} (h : pos ≤ PAYLOAD_MAX) :
    (readEntry pages pg pos).2.pos ≤ PAYLOAD_MAX := by
  unfold readEntry
  split
  · exact skipPadding_pos_le h ‹_›
  · rename_i h₁
    have p₁ := skipPadding_pos_le h h₁
    split
    · exact readSlice_pos_le p₁ ‹_›
    · rename_i h₂
      have p₂ := readSlice_pos_le p₁ h₂
      split <;> exact readSlice_pos_le p₂ ‹_›

/-- One step of the iterator keeps its position within the payload. -/
theorem next_pos_le {it : DataIterator} (h : it.pos ≤ PAYLOAD_MAX) :
    (next it).2.pos ≤ PAYLOAD_MAX := by
  have h' : (if it.current.isNone then (⟨it.pages.tail, it.pages.head?, 2⟩ : DataIterator)
      else it).pos ≤ PAYLOAD_MAX := by
    split
    · show 2 ≤ PAYLOAD_MAX; decide
    · exact h
  simp only [next]
  split
  · exact readEntry_pos_le h'
  · exact h'

/-- Every position a `DataIterator` reaches from `new` is at most `PAYLOAD_MAX`. -/
theorem iterate_next_pos_le (pages : List Page) (k : Nat) :
    ((fun it => (next it).2)^[k] (new pages)).pos ≤ PAYLOAD_MAX := by
  induction k with
  | zero => exact Nat.zero_le _
  | succ k ih => rw [Function.iterate_succ_apply']; exact next_pos_le ih

/-! ## Reading a stream

`Reads it rest`: the iterator is on a page, and `rest` is what it has still to read, the rest of
the current payload and then the payloads of the pages to come. -/

/-- The iterator is on a page and has `rest` still to read. -/
def Reads (it : DataIterator) (rest : List UInt8) : Prop :=
  ∃ pg, it.current = some pg ∧ pg.payload.drop it.pos ++ payloads it.pages = rest

theorem drop_eq_getD_cons {l : List UInt8} {n : Nat} (h : n < l.length) :
    l.drop n = l.getD n 0 :: l.drop (n + 1) := by
  rw [List.drop_eq_getElem_cons h, List.getD_eq_getElem?_getD, List.getElem?_eq_getElem h,
    Option.getD_some]

theorem getD_of_drop_eq_cons {l : List UInt8} {n : Nat} {x : UInt8} {r : List UInt8}
    (h : l.drop n = x :: r) : n < l.length ∧ l.getD n 0 = x ∧ l.drop (n + 1) = r := by
  have hn : n < l.length := by
    by_contra hc
    rw [List.drop_eq_nil_of_le (by omega)] at h
    cases h
  rw [drop_eq_getD_cons hn, List.cons.injEq] at h
  exact ⟨hn, h⟩

/-- A page whose bytes from `pos` on are all padding has no type byte there. -/
theorem scanType_of_padding {pg : Page} {pos : Nat}
    (h : ∀ x ∈ pg.payload.drop pos, DataType.fromU8 x = .padding) : scanType pg pos = none := by
  rw [scanType]
  split_ifs with hlt hne
  · have hd := drop_eq_getD_cons (show pos < pg.payload.length by simpa using hlt)
    exact absurd (h _ (hd ▸ List.mem_cons_self _ _)) hne
  · have hd := drop_eq_getD_cons (show pos < pg.payload.length by simpa using hlt)
    exact scanType_of_padding fun x hx => h x (hd ▸ List.mem_cons_of_mem _ hx)
  · rfl
termination_by PAYLOAD_MAX - pos

/-- After padding bytes `pad`, the byte `b` of a type other than padding is found. -/
theorem scanType_eq {pg : Page} {pos : Nat} {pad : List UInt8} {b : UInt8} {r : List UInt8}
    (h : pg.payload.drop pos = pad ++ b :: r) (hpad : ∀ x ∈ pad, DataType.fromU8 x = .padding)
    (hb : DataType.fromU8 b ≠ .padding) :
    scanType pg pos = some (DataType.fromU8 b, pos + pad.length + 1) := by
  induction pad generalizing pos with
  | nil =>
    obtain ⟨hlt, hx, -⟩ := getD_of_drop_eq_cons h
    rw [scanType, if_pos (show pos < PAYLOAD_MAX by simpa using hlt), hx, if_pos hb]
    rfl
  | cons x pad ih =>
    obtain ⟨hlt, hx, hr⟩ := getD_of_drop_eq_cons h
    rw [scanType, if_pos (show pos < PAYLOAD_MAX by simpa using hlt), hx,
      if_neg (not_not.mpr (hpad x (List.mem_cons_self _ _))),
      ih hr fun y hy => hpad y (List.mem_cons_of_mem _ hy), List.length_cons]
    simp only [Nat.add_assoc, Nat.add_comm 1]

theorem skipPadding_of_scanType {pages : List Page} {pg : Page} {pos : Nat} {t : DataType}
    {pos' : Nat} (h : scanType pg pos = some (t, pos')) :
    skipPadding pages (some pg) pos = (some t, ⟨pages, some pg, pos'⟩) := by
  cases pages <;> simp only [skipPadding, h]

theorem skipPadding_next_page {pages : List Page} {pg pg' : Page} {pos : Nat}
    (h : scanType pg pos = none) :
    skipPadding (pg' :: pages) (some pg) pos = skipPadding pages (some pg') 0 := by
  simp only [skipPadding, h]

/-- The type byte is on the current page. -/
theorem skipPadding_of_found {pages : List Page} {pg : Page} {pos : Nat} {pad : List UInt8}
    {b : UInt8} {r : List UInt8} (h : pg.payload.drop pos = pad ++ b :: r)
    (hpad : ∀ x ∈ pad, DataType.fromU8 x = .padding) (hb : DataType.fromU8 b ≠ .padding) :
    (skipPadding pages (some pg) pos).1 = some (DataType.fromU8 b) ∧
      Reads (skipPadding pages (some pg) pos).2 (r ++ payloads pages) := by
  rw [skipPadding_of_scanType (scanType_eq h hpad hb)]
  refine ⟨rfl, pg, rfl, ?_⟩
  show pg.payload.drop (pos + pad.length + 1) ++ payloads pages = r ++ payloads pages
  rw [Nat.add_assoc, ← List.drop_drop, h]
  simp

/-- `skip_padding` passes the padding bytes of the stream, across pages, and returns the type of
the first other byte. -/
theorem skipPadding_eq {pages : List Page} {pg : Page} {pos : Nat} {pad : List UInt8} {b : UInt8}
    {tail : List UInt8} (h : pg.payload.drop pos ++ payloads pages = pad ++ b :: tail)
    (hpad : ∀ x ∈ pad, DataType.fromU8 x = .padding) (hb : DataType.fromU8 b ≠ .padding) :
    (skipPadding pages (some pg) pos).1 = some (DataType.fromU8 b) ∧
      Reads (skipPadding pages (some pg) pos).2 tail := by
  induction pages generalizing pg pos pad with
  | nil =>
    rw [payloads_nil, List.append_nil] at h
    simpa using @skipPadding_of_found [] _ _ _ _ _ h hpad hb
  | cons pg' pages ih =>
    have moveOn : ∀ a', pad = pg.payload.drop pos ++ a' →
        payloads (pg' :: pages) = a' ++ b :: tail →
        (skipPadding (pg' :: pages) (some pg) pos).1 = some (DataType.fromU8 b) ∧
          Reads (skipPadding (pg' :: pages) (some pg) pos).2 tail := by
      rintro a' rfl hrest
      rw [skipPadding_next_page (scanType_of_padding fun x hx => hpad x (List.mem_append_left _ hx))]
      exact ih (by simpa using hrest) fun x hx => hpad x (List.mem_append_right _ hx)
    rcases List.append_eq_append_iff.mp h with ⟨a', hpad', hrest⟩ | ⟨_ | ⟨y, r⟩, hdrop, hc⟩
    · exact moveOn a' hpad' hrest
    · exact moveOn [] (by simpa using hdrop.symm) (by simpa using hc.symm)
    · obtain ⟨rfl, rfl⟩ := List.cons.inj hc
      exact skipPadding_of_found hdrop hpad hb

/-- A stream of padding bytes holds no further type byte. -/
theorem skipPadding_of_padding {pages : List Page} {pg : Page} {pos : Nat}
    (h : ∀ x ∈ pg.payload.drop pos ++ payloads pages, DataType.fromU8 x = .padding) :
    (skipPadding pages (some pg) pos).1 = none := by
  induction pages generalizing pg pos with
  | nil =>
    simp only [skipPadding, scanType_of_padding fun x hx => h x (List.mem_append_left _ hx)]
  | cons pg' pages ih =>
    rw [skipPadding_next_page (scanType_of_padding fun x hx => h x (List.mem_append_left _ hx))]
    exact ih fun x hx => h x (List.mem_append_right _ (by simpa using hx))

theorem readSlice_of_le {pages : List Page} {pg : Page} {pos n : Nat}
    (h : n ≤ PAYLOAD_MAX - pos) :
    readSlice pages (some pg) pos n = (some (pg.read pos n), ⟨pages, some pg, pos + n⟩) := by
  cases pages <;> simp only [readSlice, if_pos (Nat.min_eq_right h)]

theorem readSlice_of_fits {pages : List Page} {pg : Page} {pos : Nat} {bs tail : List UInt8}
    (h : pg.payload.drop pos ++ payloads pages = bs ++ tail) (hfit : bs.length ≤ PAYLOAD_MAX - pos) :
    (readSlice pages (some pg) pos bs.length).1 = some bs ∧
      Reads (readSlice pages (some pg) pos bs.length).2 tail := by
  have hlen : bs.length ≤ (pg.payload.drop pos).length := by simpa using hfit
  rw [readSlice_of_le hfit]
  refine ⟨?_, pg, rfl, ?_⟩
  · rw [Page.read, ← List.take_append_of_le_length hlen, h, List.take_left]
  · rw [← List.drop_drop, ← List.drop_append_of_le_length hlen, h, List.drop_left]

/-- `read_slice` of `bs.length` bytes from a stream `bs ++ tail` reads `bs`, across pages. -/
theorem readSlice_eq {pages : List Page} {pg : Page} {pos : Nat} {bs tail : List UInt8}
    (h : pg.payload.drop pos ++ payloads pages = bs ++ tail) :
    (readSlice pages (some pg) pos bs.length).1 = some bs ∧
      Reads (readSlice pages (some pg) pos bs.length).2 tail := by
  induction pages generalizing pg pos bs with
  | nil =>
    refine readSlice_of_fits h ?_
    have := congrArg List.length h
    simp only [payloads_nil, List.append_nil, List.length_drop, length_payload,
      List.length_append] at this
    omega
  | cons pg' pages ih =>
    by_cases hfit : bs.length ≤ PAYLOAD_MAX - pos
    · exact readSlice_of_fits h hfit
    · have hk : (pg.payload.drop pos).length ≤ bs.length := by simp; omega
      have hbs : bs.take (PAYLOAD_MAX - pos) = pg.payload.drop pos := by
        have := congrArg (List.take (PAYLOAD_MAX - pos)) h
        rw [List.take_append_of_le_length (by simp), List.take_of_length_le (by simp),
          List.take_append_of_le_length (by omega)] at this
        exact this.symm
      have hrest : pg'.payload.drop 0 ++ payloads pages = bs.drop (PAYLOAD_MAX - pos) ++ tail := by
        have := congrArg (List.drop (PAYLOAD_MAX - pos)) h
        rwa [List.drop_append_of_le_length (by simp), List.drop_of_length_le (by simp),
          List.drop_append_of_le_length (by omega)] at this
      obtain ⟨h₁, h₂⟩ := ih hrest
      rw [List.length_drop] at h₁ h₂
      simp only [readSlice, if_neg (show ¬min (PAYLOAD_MAX - pos) bs.length = bs.length by omega)]
      refine ⟨?_, h₂⟩
      rw [h₁, Option.map_some', Page.read, List.take_of_length_le (by simp), ← hbs,
        List.take_append_drop]

/-- `read_slice` of more bytes than the stream holds runs out of pages and returns `false`. -/
theorem readSlice_of_short {pages : List Page} {pg : Page} {pos n : Nat}
    (h : (pg.payload.drop pos ++ payloads pages).length < n) :
    readSlice pages (some pg) pos n = (none, ⟨[], none, 0⟩) := by
  have hmin : min (PAYLOAD_MAX - pos) n ≠ n := by
    simp only [List.length_append, List.length_drop, length_payload] at h
    omega
  induction pages generalizing pg pos n with
  | nil => simp only [readSlice, if_neg hmin]
  | cons pg' pages ih =>
    simp only [List.length_append, List.length_drop, length_payload, payloads_cons] at h
    have h' : (pg'.payload.drop 0 ++ payloads pages).length < n - (PAYLOAD_MAX - pos) := by
      simp only [List.length_append, List.length_drop, length_payload]
      omega
    simp only [readSlice, if_neg hmin, ih h' (by omega)]
    rfl

/-! ## Entries -/

/-- `next` on a current page reads one entry: past padding bytes, its type byte, its length and
its content. -/
theorem readEntry_eq {pages : List Page} {pg : Page} {pos : Nat} {pad tail : List UInt8}
    {e : DataEntry} (h : pg.payload.drop pos ++ payloads pages = pad ++ e.encode ++ tail)
    (hpad : ∀ x ∈ pad, DataType.fromU8 x = .padding) (he : e.dataType ≠ .padding)
    (hlen : e.content.length < 2 ^ 24) :
    (readEntry pages pg pos).1 = some e ∧ Reads (readEntry pages pg pos).2 tail := by
  have h' : pg.payload.drop pos ++ payloads pages =
      pad ++ e.dataType.toU8 :: (U24.serialize e.content.length ++ e.content ++ tail) := by
    simpa [DataEntry.encode] using h
  obtain ⟨h₁, pg₁, hc₁, hr₁⟩ := skipPadding_eq h' hpad (by simpa using he)
  obtain ⟨h₂, pg₂, hc₂, hr₂⟩ := readSlice_eq (List.append_assoc _ _ _ ▸ hr₁)
  obtain ⟨h₃, h₄⟩ := readSlice_eq hr₂
  have hsize : U24.fromSlice (U24.serialize e.content.length) = e.content.length :=
    decodeBE_encodeBE_of_lt hlen
  have h3 : (U24.serialize e.content.length).length = 3 := length_encodeBE _ _
  unfold readEntry
  rw [← Prod.mk.eta (p := skipPadding _ _ _), h₁]
  dsimp only
  rw [hc₁, ← h3, ← Prod.mk.eta (p := readSlice _ _ _ _), h₂]
  dsimp only
  rw [hc₂, hsize, ← Prod.mk.eta (p := readSlice _ _ _ _), h₃, DataType.fromU8_toU8]
  exact ⟨rfl, h₄⟩

/-- A length field that points past the end of the stream: `next` reads the type byte and the
length, runs out of pages reading the content, and returns `None` with no page left. -/
theorem readEntry_of_length_past_end {pages : List Page} {pg : Page} {pos : Nat}
    {pad size tail : List UInt8} {b : UInt8}
    (h : pg.payload.drop pos ++ payloads pages = pad ++ b :: (size ++ tail))
    (hpad : ∀ x ∈ pad, DataType.fromU8 x = .padding) (hb : DataType.fromU8 b ≠ .padding)
    (hsize : size.length = 3) (hlen : tail.length < U24.fromSlice size) :
    readEntry pages pg pos = (none, ⟨[], none, 0⟩) := by
  obtain ⟨h₁, pg₁, hc₁, hr₁⟩ := skipPadding_eq h hpad hb
  obtain ⟨h₂, pg₂, hc₂, hr₂⟩ := readSlice_eq hr₁
  unfold readEntry
  rw [← Prod.mk.eta (p := skipPadding _ _ _), h₁]
  dsimp only
  rw [hc₁, ← hsize, ← Prod.mk.eta (p := readSlice _ _ _ _), h₂]
  dsimp only
  rw [hc₂, readSlice_of_short (by rw [hr₂]; exact hlen)]

/-- `next` on a current page with only padding bytes left returns `None`. -/
theorem readEntry_of_padding {pages : List Page} {pg : Page} {pos : Nat}
    (h : ∀ x ∈ pg.payload.drop pos ++ payloads pages, DataType.fromU8 x = .padding) :
    (readEntry pages pg pos).1 = none := by
  unfold readEntry
  rw [← Prod.mk.eta (p := skipPadding _ _ _), skipPadding_of_padding h]

/-- From a current page whose stream is the encodings of `es` and then padding, the iterator
yields `es` and then `None`. -/
theorem nexts_of_reads {pad : List UInt8} (hpad : ∀ x ∈ pad, DataType.fromU8 x = .padding) :
    ∀ {es : List DataEntry} {it : DataIterator},
      (∀ e ∈ es, e.dataType ≠ .padding ∧ e.content.length < 2 ^ 24) →
      Reads it ((es.map DataEntry.encode).flatten ++ pad) →
      nexts (es.length + 1) it = es.map some ++ [none]
  | [], ⟨pages, _, pos⟩, _, ⟨pg, rfl, h⟩ => by
    have hp : ∀ x ∈ pg.payload.drop pos ++ payloads pages, DataType.fromU8 x = .padding := by
      dsimp only at h
      simpa [h] using hpad
    simp only [nexts, next_of_current, readEntry_of_padding hp]
    rfl
  | e :: es, ⟨pages, _, pos⟩, hes, ⟨pg, rfl, h⟩ => by
    have h' : pg.payload.drop pos ++ payloads pages =
        [] ++ e.encode ++ ((es.map DataEntry.encode).flatten ++ pad) := by
      simpa using h
    obtain ⟨h₁, h₂⟩ := readEntry_eq h' (by simp)
      (hes e (List.mem_cons_self _ _)).1 (hes e (List.mem_cons_self _ _)).2
    simp only [nexts, next_of_current, h₁, List.length_cons, List.map_cons, List.cons_append]
    exact congrArg _ (nexts_of_reads hpad (fun e he => hes e (List.mem_cons_of_mem _ he)) h₂)

/-- `DataFile::data_iter` over pages whose payloads are the magic bytes, the encodings of `es`
and then padding yields exactly `es`, in order, and then `None`. -/
theorem nexts_new {pages : List Page} {es : List DataEntry} {pad : List UInt8}
    (hs : payloads pages = [0xBC, 0xDA] ++ (es.map DataEntry.encode).flatten ++ pad)
    (hpad : ∀ x ∈ pad, DataType.fromU8 x = .padding)
    (hes : ∀ e ∈ es, e.dataType ≠ .padding ∧ e.content.length < 2 ^ 24) :
    nexts (es.length + 1) (new pages) = es.map some ++ [none] := by
  cases pages with
  | nil => simp at hs
  | cons pg pages =>
    have h : Reads ⟨pages, some pg, 2⟩ ((es.map DataEntry.encode).flatten ++ pad) := by
      refine ⟨pg, rfl, ?_⟩
      have := congrArg (List.drop 2) hs
      rw [payloads_cons, List.drop_append_of_le_length (by simp; decide)] at this
      simpa using this
    rw [← nexts_of_reads hpad hes h]
    cases es.length <;> rfl

end DataIterator

end Hammersbald
