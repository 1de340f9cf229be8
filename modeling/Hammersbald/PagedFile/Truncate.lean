import Hammersbald.PagedFile.ReadYourWrites

/-!
# Reading back across `truncate`

`truncate(new_len)` of the appender keeps the pages of the file below `new_len` and the page
object, and moves the position to `new_len`.  What it keeps is what a reader below `new_len` sees,
so a record survives every truncate that does not cut into it.

* `truncate_ok`: what a `truncate` that returns `Ok` leaves: the position `new_len`, the file cut
  there, the page object, and a new last page that was in the file.
* `truncate_frame`: a page-aligned `truncate` never moves the position forward and keeps every
  stream byte below it.  `call_frame` puts it beside `step_frame`: any call keeps the stream bytes
  below both the position before and the position after it.
* `CallAbove n`: a call after which the position is still at or past stream index `n`.
  `callsAbove_frame` carries the frame below `n` along a run of them.
* `append_read_back_of_calls`: a slice appended at `p`, the call returning `q`, reads back from
  `p` after any sequence of `append`, `advance`, `flush` and page-aligned `truncate` calls in
  which no `truncate` goes below `q`, and every stream byte below `q` stays as it was.
-/

namespace Hammersbald.PagedFileAppender

/-- What a `truncate` that returns `Ok` leaves. -/
theorem truncate_ok {a a' : PagedFileAppender} {newLen : Nat} (h : a.truncate newLen = .ok a') :
    a'.pos = newLen ∧ a'.file = a.file.truncate newLen ∧ a'.page = a.page ∧
      newLen / PAGE_SIZE ≤ a.file.pages.length := by
  unfold truncate at h
  split_ifs at h with hge
  · split at h
    · next lastPage hlast =>
      cases h
      have hlt : PRef.pageNumber (newLen - PAGE_SIZE) < a.file.pages.length :=
        (List.getElem?_eq_some_iff.mp hlast).1
      refine ⟨rfl, rfl, rfl, ?_⟩
      unfold PRef.pageNumber at hlt; unfold PAGE_SIZE at *; omega
    · cases h
  · cases h
    exact ⟨rfl, rfl, rfl, by unfold PAGE_SIZE at *; omega⟩

/-- A page-aligned `truncate` that returns `Ok` never moves the position forward and keeps every
stream byte below it: the pages below `new_len` stay in the file, and `read_page` shows the page
object only at `new_len`. -/
theorem truncate_frame {a a' : PagedFileAppender} {newLen : Nat} (hv : Valid a)
    (hn : newLen % PAGE_SIZE = 0) (h : a.truncate newLen = .ok a') :
    PRef.toStream a'.pos ≤ PRef.toStream a.pos ∧
      ∀ t, t < PRef.toStream a'.pos → a'.streamByte t = a.streamByte t := by
  obtain ⟨hpos, hfile, -, hle⟩ := truncate_ok h
  have hlen := hv.length_pages
  have hs : PRef.toStream a'.pos = newLen / PAGE_SIZE * PAGE_PAYLOAD_SIZE := by
    rw [hpos, PRef.toStream, PRef.pageNumber, PRef.inPagePos, hn, Nat.add_zero]
  refine ⟨?_, fun t ht => ?_⟩
  · rw [hs, PRef.toStream]
    exact Nat.le_add_right_of_le (Nat.mul_le_mul_right _ (hlen ▸ hle))
  · have hj : t / PAGE_PAYLOAD_SIZE < newLen / PAGE_SIZE := by
      rw [hs] at ht
      exact Nat.div_lt_of_lt_mul (by rwa [Nat.mul_comm] at ht)
    unfold streamByte
    rw [readPage_of_lt (a := a') (by rw [hpos]; exact hj),
      readPage_of_lt (a := a) (by rw [← hlen]; omega), hfile, MemFile.truncate_pages,
      List.getElem?_take_of_lt hj]

/-- One call, `truncate` included, keeps every stream byte below the positions before and after
it. -/
theorem call_frame {a a' : PagedFileAppender} (hv : Valid a) (h : Call a a') :
    ∀ t, t < PRef.toStream a.pos → t < PRef.toStream a'.pos → a'.streamByte t = a.streamByte t := by
  cases h with
  | step h => exact fun t ht _ => (step_frame hv h).2 t ht
  | truncate hn h => exact fun t _ ht => (truncate_frame hv hn h).2 t ht

/-- A call after which the position is still at or past stream index `n`: no `truncate` below
`n`. -/
def CallAbove (n : Nat) (a a' : PagedFileAppender) : Prop :=
  Call a a' ∧ n ≤ PRef.toStream a'.pos

/-- A run of calls that never go below stream index `n` keeps the invariant, ends at or past `n`,
and keeps every stream byte below `n`. -/
theorem callsAbove_frame {n : Nat} {a a' : PagedFileAppender} (hv : Valid a)
    (hn : n ≤ PRef.toStream a.pos) (h : Relation.ReflTransGen (CallAbove n) a a') :
    Valid a' ∧ n ≤ PRef.toStream a'.pos ∧ ∀ t, t < n → a'.streamByte t = a.streamByte t := by
  induction h with
  | refl => exact ⟨hv, hn, fun _ _ => rfl⟩
  | tail _ hbc ih =>
    obtain ⟨hvb, hnb, hfr⟩ := ih
    exact ⟨valid_call hvb hbc.1, hbc.2, fun t ht =>
      (call_frame hvb hbc.1 t (by omega) (by have := hbc.2; omega)).trans (hfr t ht)⟩

/-- Read your writes across `truncate`.  Open the appender at the end of its file and run any
sequence of `append`, `advance`, `flush` and page-aligned `truncate`.  A slice `b` appended at
position `p`, the call returning `q`, reads back from `p` at any later point of the sequence as
long as no `truncate` since has gone below `q`, and the read returns `q`.  Every stream byte below
`q`, as `read_page` shows it, is then what it was right after the append, since each such
`truncate` keeps the bytes below its new length (`truncate_frame`). -/
theorem append_read_back_of_calls {file : MemFile} {lep : Nat} {a₁ a₂ a₃ : PagedFileAppender}
    {b buf : List UInt8} {q : Nat}
    (h₁ : Relation.ReflTransGen Call (new file file.len lep) a₁)
    (h₂ : a₁.append b = .ok (a₂, q))
    (h₃ : Relation.ReflTransGen (CallAbove (PRef.toStream q)) a₂ a₃)
    (hbuf : buf.length = b.length) :
    a₃.read a₁.pos buf = .ok (b, q) ∧
      ∀ t, t < PRef.toStream q → a₃.streamByte t = a₂.streamByte t := by
  have hv₁ := valid_of_calls (valid_new file lep) h₁
  obtain ⟨hloop, rfl⟩ := append_eq_ok.mp h₂
  have hv₂ : Valid a₂ := valid_append hv₁ h₂
  have hpos := appendLoop_toStream b hv₁ hloop
  obtain ⟨-, -, hframe⟩ := callsAbove_frame hv₂ le_rfl h₃
  refine ⟨?_, hframe⟩
  rw [read, readLoop_of_streamByte a₃ b a₁.pos [] buf hv₁.inPagePos_lt hbuf
    (fun i hi => by rw [hframe _ (by omega), appendLoop_write b hv₁ hloop hi]), ← hpos,
    PRef.ofStream_toStream hv₂.inPagePos_lt, List.nil_append]

/-- `append_read_back_of_calls` on one run: `append([7])` on an empty file, `flush()`, then
`truncate(4096)`, which keeps the flushed page. -/
theorem append_read_back_after_truncate :
    Relation.ReflTransGen Call (new ⟨[]⟩ (MemFile.len ⟨[]⟩) PRef.invalid)
        (new ⟨[]⟩ 0 PRef.invalid) ∧
      (new ⟨[]⟩ 0 PRef.invalid).append [7] =
        .ok (appendChunk (new ⟨[]⟩ 0 PRef.invalid) [7], 1) ∧
      Relation.ReflTransGen (CallAbove (PRef.toStream 1))
        (appendChunk (new ⟨[]⟩ 0 PRef.invalid) [7])
        { (appendChunk (new ⟨[]⟩ 0 PRef.invalid) [7]).flush with
          lep := ((chunkPage (new ⟨[]⟩ 0 PRef.invalid) [7]).writePref PRef.invalid).readPref,
          pos := 4096, file := (appendChunk (new ⟨[]⟩ 0 PRef.invalid) [7]).flush.file.truncate 4096 } ∧
      [0].length = [7].length ∧
      PagedFileAppender.read
        { (appendChunk (new ⟨[]⟩ 0 PRef.invalid) [7]).flush with
          lep := ((chunkPage (new ⟨[]⟩ 0 PRef.invalid) [7]).writePref PRef.invalid).readPref,
          pos := 4096, file := (appendChunk (new ⟨[]⟩ 0 PRef.invalid) [7]).flush.file.truncate 4096 }
        0 [0] = .ok ([7], 1) ∧
      ∀ t, t < PRef.toStream 1 →
        streamByte { (appendChunk (new ⟨[]⟩ 0 PRef.invalid) [7]).flush with
          lep := ((chunkPage (new ⟨[]⟩ 0 PRef.invalid) [7]).writePref PRef.invalid).readPref,
          pos := 4096, file := (appendChunk (new ⟨[]⟩ 0 PRef.invalid) [7]).flush.file.truncate 4096 }
          t = (appendChunk (new ⟨[]⟩ 0 PRef.invalid) [7]).streamByte t := by
  have hspace : space (new ⟨[]⟩ 0 PRef.invalid) [7] = 1 := by decide
  have happ : (new ⟨[]⟩ 0 PRef.invalid).append [7] =
      .ok (appendChunk (new ⟨[]⟩ 0 PRef.invalid) [7], 1) := by
    rw [append_eq_ok, appendLoop_step _ (by simp) (by decide), hspace]
    exact ⟨appendLoop_nil _, by rw [appendChunk_of_room _ _ (by decide) (by decide)]; rfl⟩
  have hflush : CallAbove (PRef.toStream 1) (appendChunk (new ⟨[]⟩ 0 PRef.invalid) [7])
      (appendChunk (new ⟨[]⟩ 0 PRef.invalid) [7]).flush :=
    ⟨Call.step (Step.flush _), by decide⟩
  have htrunc : (appendChunk (new ⟨[]⟩ 0 PRef.invalid) [7]).flush.truncate 4096 =
      .ok { (appendChunk (new ⟨[]⟩ 0 PRef.invalid) [7]).flush with
        lep := ((chunkPage (new ⟨[]⟩ 0 PRef.invalid) [7]).writePref PRef.invalid).readPref,
        pos := 4096, file := (appendChunk (new ⟨[]⟩ 0 PRef.invalid) [7]).flush.file.truncate 4096 } :=
    rfl
  have hrun := (Relation.ReflTransGen.single hflush).tail ⟨Call.truncate (by decide) htrunc, by decide⟩
  exact ⟨Relation.ReflTransGen.refl, happ, hrun, rfl,
    append_read_back_of_calls Relation.ReflTransGen.refl happ hrun rfl⟩

end Hammersbald.PagedFileAppender
