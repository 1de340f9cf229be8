import Hammersbald.Bytes

/-!
# Positions and pages of a paged file

`pref.rs` and `page.rs` are not part of the repository snapshot.  `PagedFileAppender`,
`PagedFileIterator`, `SingleFile` and `AsyncFile` use four things from them, modelled here from the
file format of the specification: a page is `PAGE_SIZE = 4096` bytes, its last six bytes hold a
`PRef`, and the other `PAGE_PAYLOAD_SIZE = 4090` bytes are payload.

* A `PRef` is the byte offset it wraps, so positions are `Nat` here.  `PRef.inPagePos`,
  `PRef.thisPage` and `PRef.pageNumber` split one at page boundaries.
* A `Page` is its payload and its trailing `PRef`.  The structure carries the payload length, so
  a page of the wrong size cannot be built.
* The payload stream.  The payloads of consecutive pages, trailers left out, form one byte stream;
  `PRef.toStream` and `PRef.ofStream` translate between a position and its index in that stream.
  A position whose `inPagePos` is below `PAGE_PAYLOAD_SIZE` is a payload position, and
  `ofStream_toStream` says the two maps are inverse there.  The appender and its reader advance
  positions chunk by chunk, and `advance_chunk` says each chunk moves the stream index by the
  chunk's length.
-/

namespace Hammersbald

/-- Modelled from the spec: the size of a page in bytes. -/
def PAGE_SIZE : Nat := 4096

/-- Modelled from the spec: the payload bytes of a page, before its trailing `PRef`. -/
def PAGE_PAYLOAD_SIZE : Nat := 4090

namespace PRef

/-- Modelled from the spec: `PRef::invalid()`, the all-ones 48-bit value. -/
def invalid : Nat := 2 ^ 48 - 1

/-- Modelled from the spec: `PRef::in_page_pos`, the offset within the page. -/
def inPagePos (p : Nat) : Nat := p % PAGE_SIZE

/-- Modelled from the spec: `PRef::this_page`, the start of the page holding `p`. -/
def thisPage (p : Nat) : Nat := p / PAGE_SIZE * PAGE_SIZE

/-- Modelled from the spec: `PRef::page_number`. -/
def pageNumber (p : Nat) : Nat := p / PAGE_SIZE

/-- The index of a payload position in the payload stream. -/
def toStream (p : Nat) : Nat := pageNumber p * PAGE_PAYLOAD_SIZE + inPagePos p

/-- The position of a payload-stream index. -/
def ofStream (t : Nat) : Nat := t / PAGE_PAYLOAD_SIZE * PAGE_SIZE + t % PAGE_PAYLOAD_SIZE

theorem inPagePos_lt (p : Nat) : inPagePos p < PAGE_SIZE :=
  Nat.mod_lt _ (by decide)

theorem thisPage_add_inPagePos (p : Nat) : thisPage p + inPagePos p = p := by
  unfold thisPage inPagePos PAGE_SIZE
  omega

@[simp] theorem inPagePos_ofStream (t : Nat) : inPagePos (ofStream t) = t % PAGE_PAYLOAD_SIZE := by
  unfold inPagePos ofStream PAGE_SIZE PAGE_PAYLOAD_SIZE
  omega

@[simp] theorem thisPage_ofStream (t : Nat) :
    thisPage (ofStream t) = t / PAGE_PAYLOAD_SIZE * PAGE_SIZE := by
  unfold thisPage ofStream PAGE_SIZE PAGE_PAYLOAD_SIZE
  omega

@[simp] theorem pageNumber_ofStream (t : Nat) :
    pageNumber (ofStream t) = t / PAGE_PAYLOAD_SIZE := by
  unfold pageNumber ofStream PAGE_SIZE PAGE_PAYLOAD_SIZE
  omega

@[simp] theorem toStream_ofStream (t : Nat) : toStream (ofStream t) = t := by
  unfold toStream
  simp only [pageNumber_ofStream, inPagePos_ofStream]
  exact Nat.div_add_mod' t PAGE_PAYLOAD_SIZE

theorem ofStream_toStream {p : Nat} (h : inPagePos p < PAGE_PAYLOAD_SIZE) :
    ofStream (toStream p) = p := by
  unfold inPagePos at h
  unfold ofStream toStream pageNumber inPagePos
  unfold PAGE_SIZE PAGE_PAYLOAD_SIZE at *
  omega

/-- A page-aligned position is the start of its page in the stream. -/
theorem toStream_of_inPagePos_eq_zero {p : Nat} (h : inPagePos p = 0) :
    toStream p = pageNumber p * PAGE_PAYLOAD_SIZE := by
  simp [toStream, h]

/-- `if pos.in_page_pos() == PAGE_PAYLOAD_SIZE { pos += PAGE_SIZE - PAGE_PAYLOAD_SIZE }`: past a
full payload a position jumps over the trailer. -/
def skipTrailer (p : Nat) : Nat :=
  if inPagePos p = PAGE_PAYLOAD_SIZE then p + (PAGE_SIZE - PAGE_PAYLOAD_SIZE) else p

/-- One chunk of a write or a read: `pos += have`, then `skipTrailer`.  The stream index moves by
`have`. -/
theorem advance_chunk {p : Nat} {n : Nat} (h : inPagePos p + n ≤ PAGE_PAYLOAD_SIZE) :
    skipTrailer (p + n) = ofStream (toStream p + n) := by
  unfold inPagePos at *
  unfold skipTrailer ofStream toStream pageNumber inPagePos
  unfold PAGE_SIZE PAGE_PAYLOAD_SIZE at *
  split <;> omega

/-- Inside a page, adding to a position adds to its page offset. -/
theorem inPagePos_add {p n : Nat} (h : inPagePos p + n < PAGE_SIZE) :
    inPagePos (p + n) = inPagePos p + n := by
  unfold inPagePos at *; unfold PAGE_SIZE at *; omega

theorem pageNumber_add {p n : Nat} (h : inPagePos p + n < PAGE_SIZE) :
    pageNumber (p + n) = pageNumber p := by
  unfold inPagePos at h; unfold pageNumber; unfold PAGE_SIZE at *; omega

/-- Past a full payload and its trailer a position is the start of the next page. -/
theorem inPagePos_add_trailer {p n : Nat} (h : inPagePos p + n = PAGE_PAYLOAD_SIZE) :
    inPagePos (p + n + (PAGE_SIZE - PAGE_PAYLOAD_SIZE)) = 0 := by
  unfold inPagePos at *; unfold PAGE_SIZE PAGE_PAYLOAD_SIZE at *; omega

theorem pageNumber_add_trailer {p n : Nat} (h : inPagePos p + n = PAGE_PAYLOAD_SIZE) :
    pageNumber (p + n + (PAGE_SIZE - PAGE_PAYLOAD_SIZE)) = pageNumber p + 1 := by
  unfold inPagePos at h; unfold pageNumber; unfold PAGE_SIZE PAGE_PAYLOAD_SIZE at *; omega

theorem thisPage_eq_mul (p : Nat) : thisPage p = pageNumber p * PAGE_SIZE := rfl

end PRef

/-! ## Pages -/

/-- Modelled from the spec: a page of a paged file, `PAGE_PAYLOAD_SIZE` bytes of payload followed
by a `PRef` (`page.read_pref(PAGE_PAYLOAD_SIZE)`). -/
structure Page where
  payload : List UInt8
  trailer : Nat
  payload_length : payload.length = PAGE_PAYLOAD_SIZE

namespace Page

/-- Modelled from the spec: `Page::new(pref)`, a zero payload with `pref` in the trailer. -/
def new (pref : Nat) : Page := ⟨List.replicate PAGE_PAYLOAD_SIZE 0, pref, by simp⟩

/-- Modelled from the spec: `page.write(pos, data)` into the payload. -/
def write (pg : Page) (pos : Nat) (data : List UInt8) : Page :=
  ⟨splice pg.payload pos data, pg.trailer, by simp [pg.payload_length]⟩

/-- Modelled from the spec: `page.read(pos, buf)` for a buffer of `n` bytes. -/
def read (pg : Page) (pos n : Nat) : List UInt8 := (pg.payload.drop pos).take n

/-- Modelled from the spec: `page.write_pref(PAGE_PAYLOAD_SIZE, pref)`. -/
def writePref (pg : Page) (pref : Nat) : Page := { pg with trailer := pref }

/-- Modelled from the spec: `page.read_pref(PAGE_PAYLOAD_SIZE)`, also `page.pref()`. -/
def readPref (pg : Page) : Nat := pg.trailer

@[simp] theorem writePref_payload (pg : Page) (pref : Nat) :
    (pg.writePref pref).payload = pg.payload := rfl

@[simp] theorem writePref_trailer (pg : Page) (pref : Nat) :
    (pg.writePref pref).trailer = pref := rfl

@[simp] theorem write_payload (pg : Page) (pos : Nat) (data : List UInt8) :
    (pg.write pos data).payload = splice pg.payload pos data := rfl

@[simp] theorem write_trailer (pg : Page) (pos : Nat) (data : List UInt8) :
    (pg.write pos data).trailer = pg.trailer := rfl

@[simp] theorem new_trailer (pref : Nat) : (new pref).trailer = pref := rfl

@[simp] theorem readPref_eq (pg : Page) : pg.readPref = pg.trailer := rfl

end Page

end Hammersbald
