import Hammersbald.PagedFile.ReadYourWrites

/-!
# What the file alone determines

`truncate(len())` is how an appender is rebuilt from its file: `pos` becomes the file length and
`lep` the back-pointer stored in the file's last page.  This module compares that state with the
state an uninterrupted run continues from, and looks at what `read_page` of the appender shows
past the end of the file.

* `readPage_of_lt`, `readPage_pageNumber` and `readPage_of_gt`: in a valid state `read_page` at a
  page start returns the file's page below the position's page, the page object at it, and nothing
  past it; `readPage_isSome_iff` puts them together.  `iterPages_zero`: a `PagedFileIterator` from
  the first page yields the file's pages and then the page object, if held.
* `flush` moves the position to a fresh page start but keeps the page object, so right after a
  flush `read_page(position())` returns the page just handed to the file, one page past its end,
  and the iterator yields it twice (`readPage_after_flush`).
* `LepInv`: at a page start, `lep` is the back-pointer of the file's last page, or the position
  itself.  `lepInv_of_steps` carries it along any sequence of `append`, `advance` and `flush`.
* `flush_truncate_len`: right after a flush, `truncate(len())` changes nothing but `lep`, which
  becomes the back-pointer of the file's last page: the old `lep` unless `lep` is the position.
  `flush_truncate_len_loses_lep` is a run where it is not: a record that ends exactly on a
  payload boundary, then `advance()`, and the rebuilt `lep` loses that record's end.
-/

namespace Hammersbald

/-- The back-pointer in the trailer of the file's last page, `PRef::invalid()` without pages. -/
def MemFile.lastTrailer (f : MemFile) : Nat :=
  match f.pages.getLast? with
  | some pg => pg.trailer
  | none => PRef.invalid

@[simp] theorem MemFile.lastTrailer_appendPage (f : MemFile) (pg : Page) :
    (f.appendPage pg).lastTrailer = pg.trailer := by
  simp [lastTrailer, List.getLast?_concat]

namespace PagedFileAppender

/-! ## `read_page` past the end of the file -/

/-- At the page of the position `read_page` returns the page object, whether or not it holds
bytes that are not in the file. -/
theorem readPage_pageNumber {a : PagedFileAppender} (hv : Valid a) :
    a.readPage (PRef.pageNumber a.pos * PAGE_SIZE) = a.page := by
  have hnone : a.file.readPage (PRef.pageNumber a.pos * PAGE_SIZE) = none := by
    simp [MemFile.readPage, pageNumber_mul, hv.length_pages]
  unfold readPage
  split <;> simp_all [PRef.thisPage_eq_mul]

/-- Past the page of the position `read_page` returns nothing. -/
theorem readPage_of_gt {a : PagedFileAppender} (hv : Valid a) {j : Nat}
    (hj : PRef.pageNumber a.pos < j) : a.readPage (j * PAGE_SIZE) = none := by
  have hnone : a.file.readPage (j * PAGE_SIZE) = none := by
    simp [MemFile.readPage, pageNumber_mul, hv.length_pages]; omega
  have hne : PRef.thisPage a.pos ≠ j * PAGE_SIZE := by
    rw [PRef.thisPage_eq_mul]; unfold PAGE_SIZE; omega
  unfold readPage
  split <;> simp [hne, hnone]

/-- In a valid state `read_page` at a page start returns a page exactly at the file's pages and,
while the page object is held, at the position's page. -/
theorem readPage_isSome_iff {a : PagedFileAppender} (hv : Valid a) (j : Nat) :
    (a.readPage (j * PAGE_SIZE)).isSome ↔
      j < a.file.pages.length ∨ (a.page.isSome ∧ j = PRef.pageNumber a.pos) := by
  rw [hv.length_pages]
  rcases Nat.lt_trichotomy j (PRef.pageNumber a.pos) with hlt | rfl | hgt
  · simp [readPage_of_lt hlt, hv.length_pages, hlt]
  · simp [readPage_pageNumber hv]
  · simp [readPage_of_gt hv hgt, Nat.not_lt.mpr hgt.le, hgt.ne']

/-- The iterator from the page `pageNumber pos - k` on yields the rest of the file's pages and then
the page object, if one is held. -/
theorem iterPages_sub {a : PagedFileAppender} (hv : Valid a)
    (hb : PRef.pageNumber a.pos < 2 ^ 35 / PAGE_SIZE) (k : Nat) (hk : k ≤ PRef.pageNumber a.pos) :
    iterPages a (PRef.pageNumber a.pos - k) =
      a.file.pages.drop (PRef.pageNumber a.pos - k) ++ a.page.toList := by
  have hdrop : a.file.pages.drop (PRef.pageNumber a.pos) = [] := by simp [hv.length_pages]
  induction k with
  | zero =>
    rw [Nat.sub_zero, hdrop, List.nil_append]
    cases hpg : a.page with
    | none => exact iterPages_of_none (by rw [readPage_pageNumber hv, hpg])
    | some pg =>
      rw [iterPages_of_some hb.le (by rw [readPage_pageNumber hv, hpg]),
        iterPages_of_none (readPage_of_gt hv (Nat.lt_succ_self _))]
      rfl
  | succ k ih =>
    have hlt : PRef.pageNumber a.pos - (k + 1) < a.file.pages.length := by
      rw [hv.length_pages]; omega
    have hsucc : PRef.pageNumber a.pos - (k + 1) + 1 = PRef.pageNumber a.pos - k := by omega
    rw [iterPages_of_some (by omega) (by rw [readPage_of_lt (hv.length_pages ▸ hlt),
        List.getElem?_eq_getElem hlt]), hsucc, ih (by omega), List.drop_eq_getElem_cons hlt,
      hsucc, List.cons_append]

/-- A `PagedFileIterator` from the first page yields the file's pages and then the page object,
if one is held. -/
theorem iterPages_zero {a : PagedFileAppender} (hv : Valid a)
    (hb : PRef.pageNumber a.pos < 2 ^ 35 / PAGE_SIZE) :
    iterPages a 0 = a.file.pages ++ a.page.toList := by
  simpa using iterPages_sub hv hb (PRef.pageNumber a.pos) le_rfl

/-- The run of the failing input: `append([1])` on an empty file, then `flush()`. -/
def flushedOnce : PagedFileAppender := (appendChunk (new ⟨[]⟩ 0 PRef.invalid) [1]).flush

/-- Right after a flush `read_page(position())` returns a page, though the position is page
aligned and the file holds one page only, and the iterator yields two pages. -/
theorem readPage_after_flush :
    (new ⟨[]⟩ 0 PRef.invalid).append [1] = .ok (appendChunk (new ⟨[]⟩ 0 PRef.invalid) [1], 1) ∧
      flushedOnce.pos = PAGE_SIZE ∧ flushedOnce.len = PAGE_SIZE ∧
      (flushedOnce.readPage PAGE_SIZE).isSome ∧ (iterPages flushedOnce 0).length = 2 := by
  have hspace : space (new ⟨[]⟩ 0 PRef.invalid) [1] = 1 := by decide
  have hchunk := appendChunk_of_room (new ⟨[]⟩ 0 PRef.invalid) [1] (by decide) (by decide)
  obtain ⟨pg, hflush⟩ : ∃ pg, flushedOnce = ⟨⟨[pg]⟩, PAGE_SIZE, some pg, PRef.invalid⟩ :=
    ⟨_, by rw [flushedOnce, hchunk, flush_of_pos rfl (by decide)]; rfl⟩
  have hv0 : Valid (new ⟨[]⟩ 0 PRef.invalid) := valid_new ⟨[]⟩ PRef.invalid
  have hv : Valid flushedOnce := valid_flush (valid_appendChunk hv0 (by decide) (by decide))
  refine ⟨?_, by rw [hflush], by simp [hflush, len, MemFile.len], ?_, ?_⟩
  · rw [append_eq_ok, appendLoop_step _ (by simp) (by decide), hspace]
    exact ⟨appendLoop_nil _, by rw [hchunk]; rfl⟩
  · rw [hflush]; simp [readPage, PRef.thisPage, PAGE_SIZE]
  · have hb : PRef.pageNumber PAGE_SIZE < 2 ^ 35 / PAGE_SIZE := by decide
    rw [iterPages_zero hv (by rw [hflush]; exact hb), hflush]; rfl

/-! ## The back-pointer at a page start -/

/-- At a page start, `lep` is the back-pointer of the file's last page or the position. -/
def LepInv (a : PagedFileAppender) : Prop :=
  PRef.inPagePos a.pos = 0 → a.lep = a.file.lastTrailer ∨ a.lep = a.pos

/-- A pass of the write loop ends at a page start only by handing its page, with `lep` in the
trailer, to the file. -/
theorem lepInv_appendChunk {a : PagedFileAppender} {chunk : List UInt8}
    (h0 : 0 < chunk.length) (hfit : PRef.inPagePos a.pos + chunk.length ≤ PAGE_PAYLOAD_SIZE) :
    LepInv (appendChunk a chunk) := by
  rcases Nat.lt_or_eq_of_le hfit with hlt | hfull
  · intro hz
    rw [appendChunk_of_room a chunk (by omega) hlt] at hz
    rw [PRef.inPagePos_add (by unfold PAGE_SIZE; unfold PAGE_PAYLOAD_SIZE at hlt; omega)] at hz
    omega
  · intro _
    rw [appendChunk_full a chunk hfull]
    simp

theorem lepInv_appendLoop (rest : List UInt8) {a a' : PagedFileAppender} (hv : Valid a)
    (hi : LepInv a) (h : appendLoop a rest = .ok a') : LepInv a' := by
  refine appendLoop_induction (fun a rest => LepInv a → ∀ a', appendLoop a rest = .ok a' →
      LepInv a') ?_ ?_ rest a hv hi a' h
  · intro a _ hi a' h
    simp only [appendLoop_nil, Except.ok.injEq] at h
    rwa [← h]
  · intro a rest hv hr hsp hfit _ ih hi a' h
    rw [appendLoop_step a hr (Nat.le_of_lt hv.inPagePos_lt)] at h
    exact ih (lepInv_appendChunk (by simp; unfold space at *; omega) (by simp; omega)) a' h

theorem lepInv_flush {a : PagedFileAppender} (hv : Valid a) (hi : LepInv a) :
    LepInv a.flush := by
  by_cases h0 : PRef.inPagePos a.pos = 0
  · rwa [flush_of_zero h0]
  · obtain ⟨pg, hpg⟩ := exists_page hv (Nat.pos_of_ne_zero h0)
    intro _
    rw [flush_of_pos hpg (Nat.pos_of_ne_zero h0)]
    simp

theorem lepInv_step {a a' : PagedFileAppender} (hv : Valid a) (hi : LepInv a) (h : Step a a') :
    LepInv a' := by
  cases h with
  | append h =>
    obtain ⟨hloop, -⟩ := append_eq_ok.mp h
    exact lepInv_appendLoop _ hv hi hloop
  | advance => exact fun _ => Or.inr rfl
  | flush => exact lepInv_flush hv hi

/-- `LepInv` holds along any sequence of calls from an appender opened with the back-pointer of
the file's last page. -/
theorem lepInv_of_steps {file : MemFile} {a : PagedFileAppender}
    (h : Relation.ReflTransGen Step (new file file.len file.lastTrailer) a) :
    Valid a ∧ LepInv a := by
  induction h with
  | refl => exact ⟨valid_new file _, fun _ => Or.inl rfl⟩
  | tail _ hstep ih => exact ⟨valid_step ih.1 hstep, lepInv_step ih.1 ih.2 hstep⟩

/-! ## `truncate(len())` after a flush -/

theorem inPagePos_flush {a : PagedFileAppender} (hv : Valid a) : PRef.inPagePos a.flush.pos = 0 := by
  by_cases h0 : PRef.inPagePos a.pos = 0
  · rwa [flush_of_zero h0]
  · obtain ⟨pg, hpg⟩ := exists_page hv (Nat.pos_of_ne_zero h0)
    rw [flush_of_pos hpg (Nat.pos_of_ne_zero h0)]
    unfold PRef.inPagePos at *; unfold PAGE_SIZE at *; simp only; omega

/-- At a page start `truncate(len())` only reads `lep` back from the file's last page. -/
theorem truncate_len_of_inPagePos {a : PagedFileAppender} (hv : Valid a)
    (h0 : PRef.inPagePos a.pos = 0) :
    a.truncate a.len = .ok { a with lep := a.file.lastTrailer } := by
  have hlen : a.len = a.file.pages.length * PAGE_SIZE := rfl
  have hpos : a.len = a.pos := by
    have := PRef.thisPage_add_inPagePos a.pos
    rw [h0, PRef.thisPage_eq_mul, ← hv.length_pages] at this
    simpa [hlen] using this
  have hfile : a.file.truncate a.len = a.file := by
    simp [hlen, MemFile.truncate, PAGE_SIZE]
  have hlast : a.file.readPage (a.len - PAGE_SIZE) = a.file.pages.getLast? := by
    rw [List.getLast?_eq_getElem?, MemFile.readPage, hlen]
    congr 1
    unfold PRef.pageNumber PAGE_SIZE; omega
  unfold truncate MemFile.lastTrailer
  rw [hlast, hfile, hpos]
  split_ifs with hge
  · cases hl : a.file.pages.getLast? with
    | none =>
      rw [List.getLast?_eq_none_iff] at hl
      simp [hl, ← hpos, hlen, PAGE_SIZE] at hge
    | some pg => rfl
  · have hnil : a.file.pages = [] := by
      rw [← hpos, hlen] at hge
      rw [← List.length_eq_zero]; unfold PAGE_SIZE at hge; omega
    simp [hnil]

/-- Right after a flush, `truncate(len())` succeeds and changes nothing but `lep`, which it sets to
the back-pointer stored in the file's last page.  That is the old `lep` unless `lep` is the
position. -/
theorem flush_truncate_len {file : MemFile} {a : PagedFileAppender}
    (h : Relation.ReflTransGen Step (new file file.len file.lastTrailer) a) :
    a.flush.truncate a.flush.len = .ok { a.flush with lep := a.flush.file.lastTrailer } ∧
      (a.flush.lep = a.flush.file.lastTrailer ∨ a.flush.lep = a.flush.pos) := by
  obtain ⟨hv, hi⟩ := lepInv_of_steps h
  have hz := inPagePos_flush hv
  exact ⟨truncate_len_of_inPagePos (valid_flush hv) hz, lepInv_flush hv hi hz⟩

/-- `append` of one full payload to an empty file fills page `0` and returns `PAGE_SIZE`. -/
theorem append_full_payload :
    (new ⟨[]⟩ 0 PRef.invalid).append (List.replicate PAGE_PAYLOAD_SIZE 0) =
      .ok (appendChunk (new ⟨[]⟩ 0 PRef.invalid) (List.replicate PAGE_PAYLOAD_SIZE 0), PAGE_SIZE) := by
  have hspace : space (new ⟨[]⟩ 0 PRef.invalid) (List.replicate PAGE_PAYLOAD_SIZE 0) =
      PAGE_PAYLOAD_SIZE := by
    simp [space, new, PRef.inPagePos]
  rw [append_eq_ok, appendLoop_step _ (by simp only [ne_eq, List.replicate_eq_nil_iff]; decide)
    (by decide), hspace]
  simp only [List.take_replicate, List.drop_replicate, min_self, Nat.sub_self,
    List.replicate_zero]
  refine ⟨appendLoop_nil _, ?_⟩
  rw [appendChunk_full _ _ (by simp [new, PRef.inPagePos])]
  simp only [new, List.length_replicate, Nat.zero_add]
  decide

/-- A record of one full payload appended to an empty file, then `advance()`. -/
def fullRecord : PagedFileAppender :=
  (appendChunk (new ⟨[]⟩ 0 PRef.invalid) (List.replicate PAGE_PAYLOAD_SIZE 0)).advance

/-- `flush_truncate_len` on `fullRecord`, where `lep` is the position. -/
theorem flush_truncate_len_fullRecord :
    Relation.ReflTransGen Step (new ⟨[]⟩ (MemFile.len ⟨[]⟩) (MemFile.lastTrailer ⟨[]⟩)) fullRecord ∧
      fullRecord.flush.truncate fullRecord.flush.len =
        .ok { fullRecord.flush with lep := fullRecord.flush.file.lastTrailer } ∧
      (fullRecord.flush.lep = fullRecord.flush.file.lastTrailer ∨
        fullRecord.flush.lep = fullRecord.flush.pos) := by
  have hrun : Relation.ReflTransGen Step (new ⟨[]⟩ (MemFile.len ⟨[]⟩) (MemFile.lastTrailer ⟨[]⟩))
      fullRecord :=
    .tail (.tail .refl (Step.append append_full_payload)) (Step.advance _)
  exact ⟨hrun, flush_truncate_len hrun⟩

/-- A record that ends exactly on a payload boundary, then `advance()`: `lep` is the position, a
page start the file does not know of, and `truncate(len())` after a flush puts back the older
back-pointer of the file's last page. -/
theorem flush_truncate_len_loses_lep :
    (new ⟨[]⟩ 0 PRef.invalid).append (List.replicate PAGE_PAYLOAD_SIZE 0) =
        .ok (appendChunk (new ⟨[]⟩ 0 PRef.invalid) (List.replicate PAGE_PAYLOAD_SIZE 0), PAGE_SIZE) ∧
      (appendChunk (new ⟨[]⟩ 0 PRef.invalid) (List.replicate PAGE_PAYLOAD_SIZE 0)).advance.flush.lep =
        PAGE_SIZE ∧
      ((appendChunk (new ⟨[]⟩ 0 PRef.invalid) (List.replicate PAGE_PAYLOAD_SIZE 0)).advance.flush.truncate
          (appendChunk (new ⟨[]⟩ 0 PRef.invalid)
            (List.replicate PAGE_PAYLOAD_SIZE 0)).advance.flush.len).map lep = .ok PRef.invalid := by
  have hfull := appendChunk_full (new ⟨[]⟩ 0 PRef.invalid) (List.replicate PAGE_PAYLOAD_SIZE 0)
    (by simp [new, PRef.inPagePos])
  have hpos : (appendChunk (new ⟨[]⟩ 0 PRef.invalid) (List.replicate PAGE_PAYLOAD_SIZE 0)).pos =
      PAGE_SIZE := by
    rw [hfull]; simp only [new, List.length_replicate, Nat.zero_add]; decide
  have hz : PRef.inPagePos (appendChunk (new ⟨[]⟩ 0 PRef.invalid)
      (List.replicate PAGE_PAYLOAD_SIZE 0)).advance.pos = 0 := by
    rw [advance_pos, hpos]; decide
  have hv : Valid (appendChunk (new ⟨[]⟩ 0 PRef.invalid)
      (List.replicate PAGE_PAYLOAD_SIZE 0)).advance.flush :=
    valid_flush (valid_advance (valid_appendChunk (valid_new ⟨[]⟩ PRef.invalid)
      (by simp only [List.length_replicate]; decide) (by simp [new, PRef.inPagePos])))
  refine ⟨append_full_payload, ?_, ?_⟩
  · rw [flush_of_zero hz, advance_lep, ← hpos, hfull]
  · rw [truncate_len_of_inPagePos hv (by rw [flush_of_zero hz]; exact hz), flush_of_zero hz, hfull]
    rfl

end PagedFileAppender

end Hammersbald
