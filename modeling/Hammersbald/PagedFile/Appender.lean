import Hammersbald.Page

/-!
# `PagedFileAppender`

The appender of `pagedfile.rs` keeps a position `pos`, the page being filled and `lep`, and hands
full pages to an underlying `PagedFile`.  This module is its model, function by function, over
`MemFile`, a paged file that keeps its pages in memory and returns each page appended before at
its position.

* `appendChunk` is one pass of the loop of `PagedFileAppender::append`, and `appendLoop` the loop.
  The loop runs over the bytes not yet written instead of the counter `wrote`.  A pass that starts
  on a full payload writes nothing and hands the page on, and the measure of `appendLoop` counts
  that pass.
* `readLoop` is the loop of `PagedFileAppender::read`.  The buffer is returned, as the bytes filled
  so far followed by the bytes the loop did not reach.
* `readPage`, `flush` and `truncate` are the `PagedFile` methods of the appender.
* `pagedFileIter` is the sequence of pages a `PagedFileIterator` yields over the `read_page` of
  any `PagedFile`, and `iterPages` that sequence over the appender.

`HammersbaldError.panic` stands for a panic of a debug build.  The `?` after a call of the
in-memory file never returns, since `MemFile` does not fail.

Three facts about one pass of the write loop are proved here: a chunk that fits in the payload
moves the stream index by its length (`appendChunk_pos`), the page it leaves is the page that was
being filled with the chunk written into it, and a full page goes to the file.
-/

namespace Hammersbald

/-- The errors of `error.rs` that the modelled code returns.  `panic` is not a Rust error value:
the call panics. -/
inductive HammersbaldError where
  | corrupted (msg : String)
  | forwardReference
  | panic (msg : String)
  deriving DecidableEq, Repr

/-- A `PagedFile` that keeps its pages in memory: page `k` is at position `k * PAGE_SIZE`. -/
structure MemFile where
  pages : List Page

namespace MemFile

/-- `len`: the length in bytes. -/
def len (f : MemFile) : Nat := f.pages.length * PAGE_SIZE

/-- `read_page`: the page at `pref`, `None` past the end. -/
def readPage (f : MemFile) (pref : Nat) : Option Page := f.pages[PRef.pageNumber pref]?

/-- `append_page`: the page goes to the end. -/
def appendPage (f : MemFile) (pg : Page) : MemFile := ⟨f.pages ++ [pg]⟩

/-- `truncate` to `newLen` bytes. -/
def truncate (f : MemFile) (newLen : Nat) : MemFile := ⟨f.pages.take (newLen / PAGE_SIZE)⟩

@[simp] theorem appendPage_pages (f : MemFile) (pg : Page) :
    (f.appendPage pg).pages = f.pages ++ [pg] := rfl

@[simp] theorem truncate_pages (f : MemFile) (newLen : Nat) :
    (f.truncate newLen).pages = f.pages.take (newLen / PAGE_SIZE) := rfl

end MemFile

/-- The pages a `PagedFileIterator` over a `PagedFile` yields from page `pagenumber` on, for the
file's `read_page`, where `None` stands for `Ok(None)` and for `Err`: `next` reads the page at
`pagenumber * PAGE_SIZE` while `pagenumber ≤ (1 << 35) / PAGE_SIZE`, and stops at the first page
`read_page` does not return. -/
def pagedFileIter (readPage : Nat → Option Page) (pagenumber : Nat) : List Page :=
  if pagenumber ≤ 2 ^ 35 / PAGE_SIZE then
    match readPage (pagenumber * PAGE_SIZE) with
    | some pg => pg :: pagedFileIter readPage (pagenumber + 1)
    | none => []
  else []
termination_by 2 ^ 35 / PAGE_SIZE + 1 - pagenumber
decreasing_by omega

theorem pagedFileIter_of_some {readPage : Nat → Option Page} {j : Nat} {pg : Page}
    (hb : j ≤ 2 ^ 35 / PAGE_SIZE) (h : readPage (j * PAGE_SIZE) = some pg) :
    pagedFileIter readPage j = pg :: pagedFileIter readPage (j + 1) := by
  rw [pagedFileIter, if_pos hb, h]

theorem pagedFileIter_of_none {readPage : Nat → Option Page} {j : Nat}
    (h : readPage (j * PAGE_SIZE) = none) : pagedFileIter readPage j = [] := by
  rw [pagedFileIter]; split_ifs <;> simp [h]

theorem pagedFileIter_of_gt {readPage : Nat → Option Page} {j : Nat} (hb : 2 ^ 35 / PAGE_SIZE < j) :
    pagedFileIter readPage j = [] := by
  rw [pagedFileIter, if_neg (Nat.not_le.mpr hb)]

/-- `PagedFileAppender`: the file, the position, the page being filled and `lep`. -/
structure PagedFileAppender where
  file : MemFile
  pos : Nat
  page : Option Page
  lep : Nat

namespace PagedFileAppender

/-- `PagedFileAppender::new(file, pos, lep)`. -/
def new (file : MemFile) (pos lep : Nat) : PagedFileAppender := ⟨file, pos, none, lep⟩

/-- `PagedFileAppender::advance`: the current position becomes `lep`. -/
def advance (a : PagedFileAppender) : PagedFileAppender := { a with lep := a.pos }

/-- One pass of the loop of `append`, writing `chunk`, the next
`min(PAGE_PAYLOAD_SIZE - pos.in_page_pos(), buf.len() - wrote)` bytes of the buffer.  A full
payload gets `lep` as its trailer and goes to the file, and `pos` jumps over the trailer; at a
page start the page is dropped. -/
def appendChunk (a : PagedFileAppender) (chunk : List UInt8) : PagedFileAppender :=
  let page := (a.page.getD (Page.new a.lep)).write (PRef.inPagePos a.pos) chunk
  let pos := a.pos + chunk.length
  let a :=
    if PRef.inPagePos pos = PAGE_PAYLOAD_SIZE then
      let page := page.writePref a.lep
      { a with file := a.file.appendPage page, pos := pos + (PAGE_SIZE - PAGE_PAYLOAD_SIZE),
               page := some page }
    else { a with pos := pos, page := some page }
  if PRef.inPagePos a.pos = 0 then { a with page := none } else a

/-- A chunk that fits in the payload moves the stream index by its length. -/
theorem appendChunk_pos (a : PagedFileAppender) (chunk : List UInt8)
    (h : PRef.inPagePos a.pos + chunk.length ≤ PAGE_PAYLOAD_SIZE) :
    (appendChunk a chunk).pos = PRef.ofStream (PRef.toStream a.pos + chunk.length) := by
  rw [← PRef.advance_chunk h, appendChunk, PRef.skipTrailer]
  split <;> split <;> rfl

theorem inPagePos_appendChunk_lt (a : PagedFileAppender) (chunk : List UInt8)
    (h : PRef.inPagePos a.pos + chunk.length ≤ PAGE_PAYLOAD_SIZE) :
    PRef.inPagePos (appendChunk a chunk).pos < PAGE_PAYLOAD_SIZE := by
  rw [appendChunk_pos a chunk h, PRef.inPagePos_ofStream]
  exact Nat.mod_lt _ (by decide)

/-- The page a chunk is written into: the page being filled, or a fresh one. -/
def chunkPage (a : PagedFileAppender) (chunk : List UInt8) : Page :=
  (a.page.getD (Page.new a.lep)).write (PRef.inPagePos a.pos) chunk

/-- A chunk that fills the payload: the page goes to the file with `lep` as its trailer, and the
position moves to the next page start. -/
theorem appendChunk_full (a : PagedFileAppender) (chunk : List UInt8)
    (h : PRef.inPagePos a.pos + chunk.length = PAGE_PAYLOAD_SIZE) :
    appendChunk a chunk =
      { a with file := a.file.appendPage ((chunkPage a chunk).writePref a.lep),
               pos := a.pos + chunk.length + (PAGE_SIZE - PAGE_PAYLOAD_SIZE), page := none } := by
  have hin : PRef.inPagePos (a.pos + chunk.length) = PAGE_PAYLOAD_SIZE := by
    rw [PRef.inPagePos_add (by unfold PAGE_SIZE; unfold PAGE_PAYLOAD_SIZE at h; omega), h]
  simp only [appendChunk, hin, if_true, PRef.inPagePos_add_trailer h, chunkPage]

/-- A chunk that leaves room in the payload stays in the page being filled. -/
theorem appendChunk_of_room (a : PagedFileAppender) (chunk : List UInt8)
    (h0 : 0 < PRef.inPagePos a.pos + chunk.length)
    (h : PRef.inPagePos a.pos + chunk.length < PAGE_PAYLOAD_SIZE) :
    appendChunk a chunk =
      { a with pos := a.pos + chunk.length, page := some (chunkPage a chunk) } := by
  have hin : PRef.inPagePos (a.pos + chunk.length) = PRef.inPagePos a.pos + chunk.length :=
    PRef.inPagePos_add (by unfold PAGE_SIZE; unfold PAGE_PAYLOAD_SIZE at h; omega)
  simp only [appendChunk, hin, Nat.ne_of_lt h, if_false, Nat.ne_of_gt h0, chunkPage]

@[simp] theorem appendChunk_lep (a : PagedFileAppender) (chunk : List UInt8) :
    (appendChunk a chunk).lep = a.lep := by
  simp only [appendChunk]; split <;> split <;> rfl

/-- `space`, the length of the next chunk of the write loop: what is left of the payload, or of
the buffer. -/
def space (a : PagedFileAppender) (rest : List UInt8) : Nat :=
  min (PAGE_PAYLOAD_SIZE - PRef.inPagePos a.pos) rest.length

/-- The loop of `PagedFileAppender::append` over the bytes `rest` not yet written. -/
def appendLoop (a : PagedFileAppender) (rest : List UInt8) :
    Except HammersbaldError PagedFileAppender :=
  if rest = [] then .ok a
  else if PAGE_PAYLOAD_SIZE < PRef.inPagePos a.pos then
    .error (.panic "attempt to subtract with overflow")
  else
    appendLoop (appendChunk a (rest.take (space a rest))) (rest.drop (space a rest))
termination_by 2 * rest.length + (if PRef.inPagePos a.pos = PAGE_PAYLOAD_SIZE then 1 else 0)
decreasing_by
  rename_i hr _
  have hfit : PRef.inPagePos a.pos + (rest.take (space a rest)).length ≤ PAGE_PAYLOAD_SIZE := by
    simp only [List.length_take, space]; omega
  have hlt := inPagePos_appendChunk_lt a _ hfit
  have hne : rest.length ≠ 0 := by simpa using hr
  have hsp : space a rest = min (PAGE_PAYLOAD_SIZE - PRef.inPagePos a.pos) rest.length := rfl
  simp only [List.length_drop, if_neg (Nat.ne_of_lt hlt)]
  split <;> omega

theorem appendLoop_nil (a : PagedFileAppender) : appendLoop a [] = .ok a := by
  rw [appendLoop]; rfl

/-- One pass of the loop, from a position inside the payload. -/
theorem appendLoop_step (a : PagedFileAppender) {rest : List UInt8} (hr : rest ≠ [])
    (hp : PRef.inPagePos a.pos ≤ PAGE_PAYLOAD_SIZE) :
    appendLoop a rest = appendLoop (appendChunk a (rest.take (space a rest))) (rest.drop (space a rest)) := by
  rw [appendLoop, if_neg hr, if_neg (Nat.not_lt.mpr hp)]

/-- `PagedFileAppender::append`: write `buf`, return the position after it. -/
def append (a : PagedFileAppender) (buf : List UInt8) :
    Except HammersbaldError (PagedFileAppender × Nat) :=
  (appendLoop a buf).map fun a => (a, a.pos)

/-- `read_page` of the appender: the page being filled when `pref` is its page, otherwise the
file's page. -/
def readPage (a : PagedFileAppender) (pref : Nat) : Option Page :=
  match a.page with
  | some pg => if PRef.thisPage a.pos = pref then some pg else a.file.readPage pref
  | none => a.file.readPage pref

/-- The loop of `PagedFileAppender::read` from `pos`: `filled` holds the bytes read so far and
`rest` the part of the buffer not reached yet.  A missing page breaks the loop. -/
def readLoop (a : PagedFileAppender) (pos : Nat) (filled rest : List UInt8) :
    Except HammersbaldError (List UInt8 × Nat) :=
  if rest = [] then .ok (filled, pos)
  else match a.readPage (PRef.thisPage pos) with
    | none => .ok (filled ++ rest, pos)
    | some page =>
      if PAGE_PAYLOAD_SIZE < PRef.inPagePos pos then
        .error (.panic "attempt to subtract with overflow")
      else
        let have_ := min (PAGE_PAYLOAD_SIZE - PRef.inPagePos pos) rest.length
        readLoop a (PRef.skipTrailer (pos + have_))
          (filled ++ page.read (PRef.inPagePos pos) have_) (rest.drop have_)
termination_by 2 * rest.length + (if PRef.inPagePos pos = PAGE_PAYLOAD_SIZE then 1 else 0)
decreasing_by
  rename_i hr _
  have hfit : PRef.inPagePos pos + min (PAGE_PAYLOAD_SIZE - PRef.inPagePos pos) rest.length
      ≤ PAGE_PAYLOAD_SIZE := by omega
  have hlt : PRef.inPagePos (PRef.ofStream (PRef.toStream pos +
      min (PAGE_PAYLOAD_SIZE - PRef.inPagePos pos) rest.length)) < PAGE_PAYLOAD_SIZE := by
    rw [PRef.inPagePos_ofStream]; exact Nat.mod_lt _ (by decide)
  rw [PRef.advance_chunk hfit]
  have hne : rest.length ≠ 0 := by simpa using hr
  simp only [List.length_drop, if_neg (Nat.ne_of_lt hlt)]
  split <;> omega

theorem readLoop_nil (a : PagedFileAppender) (pos : Nat) (filled : List UInt8) :
    readLoop a pos filled [] = .ok (filled, pos) := by
  rw [readLoop]; rfl

/-- One pass of the read loop over a page that is there, from a position inside the payload. -/
theorem readLoop_step (a : PagedFileAppender) {pos : Nat} {filled rest : List UInt8} {page : Page}
    (hr : rest ≠ []) (hpage : a.readPage (PRef.thisPage pos) = some page)
    (hp : PRef.inPagePos pos ≤ PAGE_PAYLOAD_SIZE) :
    readLoop a pos filled rest =
      readLoop a (PRef.skipTrailer (pos + min (PAGE_PAYLOAD_SIZE - PRef.inPagePos pos) rest.length))
        (filled ++ page.read (PRef.inPagePos pos) (min (PAGE_PAYLOAD_SIZE - PRef.inPagePos pos) rest.length))
        (rest.drop (min (PAGE_PAYLOAD_SIZE - PRef.inPagePos pos) rest.length)) := by
  rw [readLoop, if_neg hr]
  simp only [hpage, if_neg (Nat.not_lt.mpr hp)]

/-- `PagedFileAppender::read(pos, buf)`: the filled buffer and the position after it. -/
def read (a : PagedFileAppender) (pos : Nat) (buf : List UInt8) :
    Except HammersbaldError (List UInt8 × Nat) :=
  readLoop a pos [] buf

/-- `len` of the appender: the length of the file. -/
def len (a : PagedFileAppender) : Nat := a.file.len

/-- `flush` of the appender: a page with bytes in it gets `lep` as its trailer and goes to the
file, and `pos` moves to the next page start.  The page object stays. -/
def flush (a : PagedFileAppender) : PagedFileAppender :=
  match a.page with
  | some pg =>
    if 0 < PRef.inPagePos a.pos then
      let pg := pg.writePref a.lep
      { a with page := some pg, file := a.file.appendPage pg,
               pos := a.pos + (PAGE_SIZE - PRef.inPagePos a.pos) }
    else a
  | none => a

/-- `truncate` of the appender: `lep` is read back from the trailer of the new last page, and
`pos` becomes `newLen`.  The page object stays. -/
def truncate (a : PagedFileAppender) (newLen : Nat) :
    Except HammersbaldError PagedFileAppender :=
  if PAGE_SIZE ≤ newLen then
    match a.file.readPage (newLen - PAGE_SIZE) with
    | some lastPage =>
      .ok { a with lep := lastPage.readPref, pos := newLen, file := a.file.truncate newLen }
    | none => .error (.corrupted "where is the last page?")
  else .ok { a with lep := PRef.invalid, pos := newLen, file := a.file.truncate newLen }

/-- The pages a `PagedFileIterator` over the appender yields from page `pagenumber` on. -/
def iterPages (a : PagedFileAppender) (pagenumber : Nat) : List Page :=
  pagedFileIter a.readPage pagenumber

theorem iterPages_of_some {a : PagedFileAppender} {j : Nat} {pg : Page}
    (hb : j ≤ 2 ^ 35 / PAGE_SIZE) (h : a.readPage (j * PAGE_SIZE) = some pg) :
    iterPages a j = pg :: iterPages a (j + 1) :=
  pagedFileIter_of_some hb h

theorem iterPages_of_none {a : PagedFileAppender} {j : Nat}
    (h : a.readPage (j * PAGE_SIZE) = none) : iterPages a j = [] :=
  pagedFileIter_of_none h

@[simp] theorem advance_pos (a : PagedFileAppender) : a.advance.pos = a.pos := rfl
@[simp] theorem advance_file (a : PagedFileAppender) : a.advance.file = a.file := rfl
@[simp] theorem advance_page (a : PagedFileAppender) : a.advance.page = a.page := rfl
@[simp] theorem advance_lep (a : PagedFileAppender) : a.advance.lep = a.pos := rfl

/-- `flush` with bytes in the page being filled. -/
theorem flush_of_pos {a : PagedFileAppender} {pg : Page} (hpg : a.page = some pg)
    (h : 0 < PRef.inPagePos a.pos) :
    a.flush = { a with page := some (pg.writePref a.lep), file := a.file.appendPage (pg.writePref a.lep),
                        pos := a.pos + (PAGE_SIZE - PRef.inPagePos a.pos) } := by
  simp [flush, hpg, h]

/-- `flush` at a page start does nothing. -/
theorem flush_of_zero {a : PagedFileAppender} (h : PRef.inPagePos a.pos = 0) : a.flush = a := by
  unfold flush; split <;> simp [h]

@[simp] theorem flush_lep (a : PagedFileAppender) : a.flush.lep = a.lep := by
  unfold flush; split <;> try split
  all_goals rfl

end PagedFileAppender

end Hammersbald
