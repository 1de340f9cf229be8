import Hammersbald.PagedFile.Appender

/-!
# `SingleFile`

`SingleFile` of `singlefile.rs` is a paged file over one OS file.  It keeps the file length in
its `len` field, and reads and writes pages through the one cursor of the OS file: `read_page` and
`update_page` seek before they read or write, `append_page` writes wherever the cursor is.

The model.

* `OsFile` is the OS file as a byte array and a cursor.  `seek`, `read`, `write` and `set_len` act
  on them as POSIX says: a write past the end fills the gap with zeros, a read stops at the end,
  and `set_len` leaves the cursor where it is.  OS calls do not fail in the model.
* `FilePage` is what `SingleFile` uses of a page: the `PAGE_SIZE` bytes of `Page::into_buf` and
  the position `Page::pref`.  The structure carries the buffer length.
* `exec` runs one `read_page`, `append_page`, `update_page` or `truncate` call and keeps its state;
  a call that returns `Err` leaves the state as it was.

The results.

* `len_eq_length_exec`: `len` stays the length of the byte array through every call but an
  `append_page` made while the cursor is not at the end.  `appendPage_at_end` is the good case:
  with the cursor at the end, the page lands at the prior end and `read_page` returns it there.
* `appendPages_len_eq_length`: a `SingleFile` that only appends, from `new` or `new_chunk`, keeps
  `len` the length of the file, and every page lands at the prior end.
* `append_after_read_page`: a `read_page` between two appends moves the cursor, and the second
  append overwrites the page after the one read: for any pages `a`, `b`, `c`, after appending
  `a` and `b` to an empty file, reading page `0` and appending `c`, `len` is three pages while
  the file holds two, `read_page(PAGE_SIZE)` returns `c` and `read_page(2 * PAGE_SIZE)` returns
  zeros.
-/

namespace Hammersbald

/-! ## The OS file -/

/-- A write of `data` at `pos`, with zeros between the end of `l` and `pos`. -/
def writeAt (l : List UInt8) (pos : Nat) (data : List UInt8) : List UInt8 :=
  let padded := l ++ List.replicate (pos - l.length) 0
  padded.take pos ++ data ++ padded.drop (pos + data.length)

@[simp] theorem length_writeAt (l : List UInt8) (pos : Nat) (data : List UInt8) :
    (writeAt l pos data).length = max l.length (pos + data.length) := by
  simp only [writeAt, List.length_append, List.length_take, List.length_replicate,
    List.length_drop]
  omega

/-- A write over the bytes `y` of `x ++ y ++ z` with as many bytes replaces them. -/
theorem writeAt_append (x y z data : List UInt8) {pos : Nat} (hpos : pos = x.length)
    (h : data.length = y.length) : writeAt (x ++ y ++ z) pos data = x ++ data ++ z := by
  subst hpos
  have hpad : x.length - (x ++ y ++ z).length = 0 := by simp
  simp only [writeAt, hpad, List.replicate_zero, List.append_nil, h]
  simp [List.drop_append_eq_append_drop, List.take_append_eq_append_take]

/-- A write at the end appends. -/
theorem writeAt_length (l data : List UInt8) {pos : Nat} (hpos : pos = l.length) :
    writeAt l pos data = l ++ data := by
  subst hpos
  simp [writeAt]

/-- The written bytes read back. -/
theorem take_drop_writeAt (l : List UInt8) (pos : Nat) (data : List UInt8) :
    ((writeAt l pos data).drop pos).take data.length = data := by
  have hlen : ((l ++ List.replicate (pos - l.length) 0).take pos).length = pos := by
    simp only [List.length_take, List.length_append, List.length_replicate]; omega
  simp only [writeAt]
  rw [List.append_assoc, List.drop_left' hlen, List.take_left' rfl]

/-- The OS file: its bytes and the cursor that `seek`, `read` and `write` share. -/
structure OsFile where
  bytes : List UInt8
  cursor : Nat
deriving DecidableEq, Repr

namespace OsFile

/-- `seek(SeekFrom::Start(pos))`. -/
def seekStart (f : OsFile) (pos : Nat) : OsFile := { f with cursor := pos }

/-- `seek(SeekFrom::End(0))`: the cursor at the end, whose position it returns. -/
def seekEnd (f : OsFile) : OsFile × Nat := ({ f with cursor := f.bytes.length }, f.bytes.length)

/-- `read` into a buffer of `n` bytes: the bytes from the cursor on, at most `n`. -/
def read (f : OsFile) (n : Nat) : OsFile × List UInt8 :=
  let got := (f.bytes.drop f.cursor).take n
  ({ f with cursor := f.cursor + got.length }, got)

/-- `write`: the bytes at the cursor, which moves past them. -/
def write (f : OsFile) (data : List UInt8) : OsFile :=
  ⟨writeAt f.bytes f.cursor data, f.cursor + data.length⟩

/-- `set_len`: cut or zero-extend the bytes; the cursor stays. -/
def setLen (f : OsFile) (n : Nat) : OsFile :=
  { f with bytes := (f.bytes ++ List.replicate (n - f.bytes.length) 0).take n }

@[simp] theorem length_setLen (f : OsFile) (n : Nat) : (f.setLen n).bytes.length = n := by
  simp only [setLen, List.length_take, List.length_append, List.length_replicate]; omega

end OsFile

/-- Modelled from the spec: a page as `SingleFile` uses it, the `PAGE_SIZE` bytes of
`Page::into_buf` and the position `Page::pref` it belongs at. -/
structure FilePage where
  pref : Nat
  buf : List UInt8
  buf_length : buf.length = PAGE_SIZE

/-- A page that belongs at `pref` as `Page::into_buf` lays it out: a payload of the byte `b`, then
the six big-endian bytes of `pref` in the trailer. -/
def FilePage.filled (pref : Nat) (b : UInt8) : FilePage :=
  ⟨pref, List.replicate PAGE_PAYLOAD_SIZE b ++ encodeBE 6 pref, by
    rw [List.length_append, List.length_replicate, length_encodeBE]; rfl⟩

/-! ## `SingleFile` -/

/-- `SingleFile`: the OS file, the position `base` of its first byte, its length and the size of
the chunk of positions it holds. -/
structure SingleFile where
  file : OsFile
  base : Nat
  len : Nat
  chunkSize : Nat
deriving DecidableEq, Repr

namespace SingleFile

/-- `SingleFile::new`: the length is where `seek(End(0))` puts the cursor. -/
def new (file : OsFile) : SingleFile :=
  ⟨file.seekEnd.1, 0, file.seekEnd.2, 2 ^ 47⟩

/-- `SingleFile::new_chunk`. -/
def newChunk (file : OsFile) (base chunkSize : Nat) : SingleFile :=
  ⟨file.seekEnd.1, base, file.seekEnd.2, chunkSize⟩

/-- `read_page`: `None` past `len`, otherwise the `PAGE_SIZE` bytes from the page's position,
zeros where the file ends first.  The cursor moves past the bytes read. -/
def readPage (sf : SingleFile) (o : Nat) : Except HammersbaldError (SingleFile × Option (List UInt8)) :=
  if o < sf.base ∨ sf.base + sf.chunkSize ≤ o then .error (.corrupted "read from wrong file")
  else
    let pos := o - sf.base
    if sf.len ≤ pos then .ok (sf, none)
    else
      let r := (sf.file.seekStart pos).read PAGE_SIZE
      .ok ({ sf with file := r.1 }, some (r.2 ++ List.replicate (PAGE_SIZE - r.2.length) 0))

/-- `truncate`: `len` first, then `set_len`. -/
def truncate (sf : SingleFile) (newLen : Nat) : SingleFile :=
  { sf with len := newLen, file := sf.file.setLen newLen }

/-- `append_page`: a write at the cursor, without a seek, and `len` grows by a page. -/
def appendPage (sf : SingleFile) (page : FilePage) : SingleFile :=
  { sf with file := sf.file.write page.buf, len := sf.len + PAGE_SIZE }

/-- `update_page`: a write at the page's own position; `len` grows to cover it. -/
def updatePage (sf : SingleFile) (page : FilePage) : Except HammersbaldError (SingleFile × Nat) :=
  if page.pref < sf.base ∨ sf.base + sf.chunkSize ≤ page.pref then
    .error (.corrupted "write to wrong file")
  else
    let pos := page.pref - sf.base
    let len := max sf.len (pos + PAGE_SIZE)
    .ok ({ sf with file := (sf.file.seekStart pos).write page.buf, len }, len)

/-- The calls of a sequence. -/
inductive Call where
  | readPage (o : Nat)
  | appendPage (page : FilePage)
  | updatePage (page : FilePage)
  | truncate (newLen : Nat)

/-- One call and the state after it; a call that returns `Err` leaves the state. -/
def exec (sf : SingleFile) : Call → SingleFile
  | .readPage o => match sf.readPage o with
    | .ok (sf', _) => sf'
    | .error _ => sf
  | .appendPage page => sf.appendPage page
  | .updatePage page => match sf.updatePage page with
    | .ok (sf', _) => sf'
    | .error _ => sf
  | .truncate newLen => sf.truncate newLen

/-! ## The length field -/

/-- `len` is the length of the byte array. -/
def LenOk (sf : SingleFile) : Prop := sf.len = sf.file.bytes.length

theorem lenOk_new (file : OsFile) : LenOk (new file) := rfl

theorem lenOk_newChunk (file : OsFile) (base chunkSize : Nat) :
    LenOk (newChunk file base chunkSize) := rfl

/-- `read_page` moves the cursor only. -/
theorem readPage_bytes {sf sf' : SingleFile} {o : Nat} {r : Option (List UInt8)}
    (h : sf.readPage o = .ok (sf', r)) : sf'.file.bytes = sf.file.bytes ∧ sf'.len = sf.len := by
  unfold readPage at h
  dsimp only at h
  split_ifs at h <;> cases h <;> exact ⟨rfl, rfl⟩

/-- `read_page` below `len`: the bytes from the page's position, padded with zeros. -/
theorem readPage_of_lt {sf : SingleFile} {o : Nat} (hb : sf.base ≤ o)
    (hc : o < sf.base + sf.chunkSize) (hl : o - sf.base < sf.len) :
    sf.readPage o =
      let got := (sf.file.bytes.drop (o - sf.base)).take PAGE_SIZE
      .ok ({ sf with file := ⟨sf.file.bytes, o - sf.base + got.length⟩ },
        some (got ++ List.replicate (PAGE_SIZE - got.length) 0)) := by
  unfold readPage
  rw [if_neg (by omega), if_neg (by omega)]
  rfl

/-- `update_page` keeps `LenOk`. -/
theorem lenOk_updatePage {sf sf' : SingleFile} {page : FilePage} {n : Nat} (hl : LenOk sf)
    (h : sf.updatePage page = .ok (sf', n)) : LenOk sf' := by
  unfold updatePage at h
  split_ifs at h
  cases h
  simp only [LenOk, OsFile.write, OsFile.seekStart, length_writeAt, page.buf_length] at hl ⊢
  rw [hl]

/-- An `append_page` keeps `LenOk` exactly when the cursor is at the end. -/
theorem lenOk_appendPage_iff {sf : SingleFile} (page : FilePage) (hl : LenOk sf) :
    LenOk (sf.appendPage page) ↔ sf.file.cursor = sf.len := by
  simp only [LenOk, appendPage, OsFile.write, length_writeAt, page.buf_length] at hl ⊢
  unfold PAGE_SIZE
  omega

/-- Every call but an `append_page` away from the end keeps `LenOk`. -/
theorem len_eq_length_exec {sf : SingleFile} (hl : LenOk sf) (call : Call)
    (hc : ∀ page, call = .appendPage page → sf.file.cursor = sf.len) : LenOk (sf.exec call) := by
  cases call with
  | readPage o =>
    rcases h : sf.readPage o with _ | ⟨sf', r⟩
    · simpa only [exec, h] using hl
    · obtain ⟨hb, hlen⟩ := readPage_bytes h
      simp only [exec, h, LenOk, hb, hlen]
      exact hl
  | appendPage page => exact (lenOk_appendPage_iff page hl).mpr (hc page rfl)
  | updatePage page =>
    rcases h : sf.updatePage page with _ | ⟨sf', n⟩
    · simpa only [exec, h] using hl
    · simpa only [exec, h] using lenOk_updatePage hl h
  | truncate newLen => exact (OsFile.length_setLen _ _).symm

/-! ## Appends -/

/-- The cursor is at the end of the file. -/
def AtEnd (sf : SingleFile) : Prop := LenOk sf ∧ sf.file.cursor = sf.len

theorem atEnd_newChunk (file : OsFile) (base chunkSize : Nat) :
    AtEnd (newChunk file base chunkSize) := ⟨rfl, rfl⟩

/-- With the cursor at the end, `append_page` puts the page at the prior end, where `read_page`
returns it, and leaves the cursor at the new end. -/
theorem appendPage_at_end {sf : SingleFile} (page : FilePage) (he : AtEnd sf)
    (hchunk : sf.len + PAGE_SIZE ≤ sf.chunkSize) :
    AtEnd (sf.appendPage page) ∧ (sf.appendPage page).file.bytes = sf.file.bytes ++ page.buf ∧
      ((sf.appendPage page).readPage (sf.base + sf.len)).map Prod.snd = .ok (some page.buf) := by
  obtain ⟨hl, hc⟩ := he
  have hl' : sf.len = sf.file.bytes.length := hl
  have hbytes : (sf.file.write page.buf).bytes = sf.file.bytes ++ page.buf := by
    simp only [OsFile.write, hc, writeAt_length _ _ hl']
  refine ⟨⟨(lenOk_appendPage_iff page hl).mpr hc, ?_⟩, hbytes, ?_⟩
  · simp [appendPage, OsFile.write, hc, page.buf_length]
  · have hread : ((sf.file.bytes ++ page.buf).drop sf.len).take PAGE_SIZE = page.buf := by
      rw [hl', List.drop_left, ← page.buf_length, List.take_length]
    unfold readPage
    rw [if_neg (by simp [appendPage]; unfold PAGE_SIZE at hchunk; omega),
      if_neg (by simp [appendPage]; unfold PAGE_SIZE; omega)]
    simp only [OsFile.seekStart, OsFile.read, hbytes, appendPage, Nat.add_sub_cancel_left, hread,
      page.buf_length, Nat.sub_self, List.replicate_zero, List.append_nil]
    rfl

/-- The state after a sequence of calls. -/
def execAll (sf : SingleFile) (calls : List Call) : SingleFile := calls.foldl exec sf

/-- A `SingleFile` that only appends, with the cursor at the end and the pages inside its chunk,
keeps the cursor at the end, and its file is the old one followed by the pages in order. -/
theorem appendPages_len_eq_length {sf : SingleFile} (he : AtEnd sf) (pages : List FilePage)
    (hchunk : sf.len + pages.length * PAGE_SIZE ≤ sf.chunkSize) :
    AtEnd (sf.execAll (pages.map .appendPage)) ∧
      (sf.execAll (pages.map .appendPage)).file.bytes =
        sf.file.bytes ++ (pages.map FilePage.buf).flatten := by
  induction pages generalizing sf with
  | nil => exact ⟨he, by simp [execAll]⟩
  | cons page pages ih =>
    obtain ⟨he', hbytes, -⟩ := appendPage_at_end page he (by simp at hchunk; rw [Nat.succ_mul] at hchunk; omega)
    obtain ⟨he'', hbytes'⟩ := ih he' (by
      simp only [appendPage, List.length_cons, Nat.succ_mul] at hchunk ⊢; omega)
    refine ⟨he'', ?_⟩
    rw [show (sf.execAll ((page :: pages).map .appendPage)) =
      (sf.appendPage page).execAll (pages.map .appendPage) from rfl, hbytes', hbytes]
    simp

/-- `appendPages_len_eq_length` for two pages of zeros appended to an empty file by `new`. -/
theorem appendPages_len_eq_length_two :
    AtEnd (new ⟨[], 0⟩) ∧
      (new ⟨[], 0⟩).len + [FilePage.filled 0 0, FilePage.filled PAGE_SIZE 0].length * PAGE_SIZE ≤
        (new ⟨[], 0⟩).chunkSize ∧
      AtEnd ((new ⟨[], 0⟩).execAll ([FilePage.filled 0 0, FilePage.filled PAGE_SIZE 0].map .appendPage)) ∧
      ((new ⟨[], 0⟩).execAll ([FilePage.filled 0 0, FilePage.filled PAGE_SIZE 0].map .appendPage)).file.bytes =
        (new ⟨[], 0⟩).file.bytes ++
          ([FilePage.filled 0 0, FilePage.filled PAGE_SIZE 0].map FilePage.buf).flatten := by
  have he : AtEnd (new ⟨[], 0⟩) := ⟨rfl, rfl⟩
  have hc : (new ⟨[], 0⟩).len + [FilePage.filled 0 0, FilePage.filled PAGE_SIZE 0].length * PAGE_SIZE ≤
      (new ⟨[], 0⟩).chunkSize := by
    simp [new, OsFile.seekEnd, PAGE_SIZE]
  exact ⟨he, hc, appendPages_len_eq_length he _ hc⟩

/-- The run of the failing input: append `a` and `b` to an empty file, read page `0`, append `c`. -/
def appendReadAppend (a b c : FilePage) : SingleFile :=
  (new ⟨[], 0⟩).execAll [.appendPage a, .appendPage b, .readPage 0, .appendPage c]

/-- A `read_page` between two appends moves the cursor back, and the next append overwrites the
page after the one read: `len` counts three pages, the file holds two, page `1` is `c`, and
`read_page` at the prior end of the last append returns zeros. -/
theorem append_after_read_page (a b c : FilePage) :
    (appendReadAppend a b c).len = 3 * PAGE_SIZE ∧
      (appendReadAppend a b c).file.bytes = a.buf ++ c.buf ∧
      ((appendReadAppend a b c).readPage PAGE_SIZE).map Prod.snd = .ok (some c.buf) ∧
      ((appendReadAppend a b c).readPage (2 * PAGE_SIZE)).map Prod.snd =
        .ok (some (List.replicate PAGE_SIZE 0)) := by
  have ha := a.buf_length
  have hb := b.buf_length
  have hc := c.buf_length
  have h₁ : (new ⟨[], 0⟩).exec (.appendPage a) = ⟨⟨a.buf, PAGE_SIZE⟩, 0, PAGE_SIZE, 2 ^ 47⟩ := by
    simp [exec, appendPage, OsFile.write, new, OsFile.seekEnd, writeAt, ha]
  have h₂ : exec ⟨⟨a.buf, PAGE_SIZE⟩, 0, PAGE_SIZE, 2 ^ 47⟩ (.appendPage b) =
      ⟨⟨a.buf ++ b.buf, 2 * PAGE_SIZE⟩, 0, 2 * PAGE_SIZE, 2 ^ 47⟩ := by
    simp only [exec, appendPage, OsFile.write, writeAt_length _ _ ha.symm, SingleFile.mk.injEq,
      OsFile.mk.injEq, hb, true_and, and_true]
    omega
  have h₃ : exec ⟨⟨a.buf ++ b.buf, 2 * PAGE_SIZE⟩, 0, 2 * PAGE_SIZE, 2 ^ 47⟩ (.readPage 0) =
      ⟨⟨a.buf ++ b.buf, PAGE_SIZE⟩, 0, 2 * PAGE_SIZE, 2 ^ 47⟩ := by
    simp only [exec]
    rw [readPage_of_lt (Nat.zero_le _) (by simp) (by simp [PAGE_SIZE])]
    simp [List.take_left' ha, ha]
  have h₄ : exec ⟨⟨a.buf ++ b.buf, PAGE_SIZE⟩, 0, 2 * PAGE_SIZE, 2 ^ 47⟩ (.appendPage c) =
      ⟨⟨a.buf ++ c.buf, 2 * PAGE_SIZE⟩, 0, 3 * PAGE_SIZE, 2 ^ 47⟩ := by
    have hw := writeAt_append a.buf b.buf [] c.buf ha.symm (by rw [hb, hc])
    simp only [List.append_nil] at hw
    simp only [exec, appendPage, OsFile.write, hw, SingleFile.mk.injEq, OsFile.mk.injEq, hc,
      true_and, and_true]
    omega
  have hrun : appendReadAppend a b c = ⟨⟨a.buf ++ c.buf, 2 * PAGE_SIZE⟩, 0, 3 * PAGE_SIZE, 2 ^ 47⟩ := by
    simp only [appendReadAppend, execAll, List.foldl, h₁, h₂, h₃, h₄]
  rw [hrun]
  refine ⟨rfl, rfl, ?_, ?_⟩
  · rw [readPage_of_lt (Nat.zero_le _) (by simp [PAGE_SIZE]) (by simp [PAGE_SIZE])]
    simp only [Nat.sub_zero, List.drop_left' ha, List.take_of_length_le hc.le, hc, Nat.sub_self,
      List.replicate_zero, List.append_nil]
    rfl
  · have hdrop : (a.buf ++ c.buf).drop (2 * PAGE_SIZE - 0) = [] := by simp [ha, hc]; omega
    rw [readPage_of_lt (Nat.zero_le _) (by simp [PAGE_SIZE]) (by simp [PAGE_SIZE]), hdrop]
    rfl

end SingleFile

end Hammersbald
