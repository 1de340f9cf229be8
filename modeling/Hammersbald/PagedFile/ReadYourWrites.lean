import Hammersbald.PagedFile.Invariant

/-!
# Reading back what the appender wrote

`streamByte a t` is the byte at index `t` of the payload stream as `read_page` of the appender
shows it: from the page being filled when `t` falls in it, from the file otherwise.  The proof
that `read` returns what `append` wrote goes through this view.

* `streamByte_appendChunk_lt` and `streamByte_appendChunk_write`: a pass of the write loop keeps
  every byte before the position and puts the chunk after it.  `appendLoop_frame` and
  `appendLoop_write` lift both to the whole loop.
* `streamByte_flush_lt`: a flush keeps every byte before the position, whether the page it hands
  on came from the page object or not.  `steps_frame` carries the frame along any sequence of
  calls.
* `readLoop_of_streamByte`: the read loop returns the stream bytes it passes and the position
  after them.
* `append_read_back`: a slice appended at `p`, returning `q`, reads back from `p` at any later
  point of the sequence, with `q` as the position after it.
-/

namespace Hammersbald.PagedFileAppender

/-- The byte at index `t` of the payload stream, as `read_page` shows it. -/
def streamByte (a : PagedFileAppender) (t : Nat) : Option UInt8 :=
  (a.readPage (t / PAGE_PAYLOAD_SIZE * PAGE_SIZE)).bind fun pg => pg.payload[t % PAGE_PAYLOAD_SIZE]?

/-! ## Which page `read_page` returns -/

theorem pageNumber_mul (j : Nat) : PRef.pageNumber (j * PAGE_SIZE) = j := by
  unfold PRef.pageNumber PAGE_SIZE; omega

/-- Below the position's page, `read_page` returns the file's page. -/
theorem readPage_of_lt {a : PagedFileAppender} {j : Nat} (hj : j < PRef.pageNumber a.pos) :
    a.readPage (j * PAGE_SIZE) = a.file.pages[j]? := by
  have hne : PRef.thisPage a.pos ≠ j * PAGE_SIZE := by
    rw [PRef.thisPage_eq_mul]; unfold PAGE_SIZE; omega
  unfold readPage; split <;> simp [hne, MemFile.readPage, pageNumber_mul]

/-- At the position's page, `read_page` returns the page being filled. -/
theorem readPage_this {a : PagedFileAppender} {pg : Page} (h : a.page = some pg) :
    a.readPage (PRef.pageNumber a.pos * PAGE_SIZE) = some pg := by
  simp [readPage, h, PRef.thisPage_eq_mul]

/-- A valid appender with bytes in the page being filled holds that page. -/
theorem exists_page {a : PagedFileAppender} (hv : Valid a) (h : 0 < PRef.inPagePos a.pos) :
    ∃ pg, a.page = some pg :=
  Option.ne_none_iff_exists'.mp (mt hv.page_of_pos (Nat.ne_of_gt h))

/-- After a pass of the write loop the position's old page shows the chunk page's payload. -/
theorem readPage_appendChunk_this {a : PagedFileAppender} {chunk : List UInt8} (hv : Valid a)
    (h0 : 0 < chunk.length) (hfit : PRef.inPagePos a.pos + chunk.length ≤ PAGE_PAYLOAD_SIZE) :
    ∃ pg, (appendChunk a chunk).readPage (PRef.pageNumber a.pos * PAGE_SIZE) = some pg ∧
      pg.payload = (chunkPage a chunk).payload := by
  rcases Nat.lt_or_eq_of_le hfit with hlt | hfull
  · have hin : PRef.inPagePos a.pos + chunk.length < PAGE_SIZE := by
      unfold PAGE_SIZE; unfold PAGE_PAYLOAD_SIZE at hlt; omega
    refine ⟨chunkPage a chunk, ?_, rfl⟩
    rw [appendChunk_of_room a chunk (by omega) hlt, ← PRef.pageNumber_add hin]
    exact readPage_this rfl
  · refine ⟨(chunkPage a chunk).writePref a.lep, ?_, rfl⟩
    rw [appendChunk_full a chunk hfull, readPage_of_lt (by simp [PRef.pageNumber_add_trailer hfull])]
    simp [hv.length_pages]

/-- Below the position's page a pass of the write loop changes nothing `read_page` shows. -/
theorem readPage_appendChunk_lt {a : PagedFileAppender} {chunk : List UInt8} (hv : Valid a)
    (h0 : 0 < chunk.length) (hfit : PRef.inPagePos a.pos + chunk.length ≤ PAGE_PAYLOAD_SIZE)
    {j : Nat} (hj : j < PRef.pageNumber a.pos) :
    (appendChunk a chunk).readPage (j * PAGE_SIZE) = a.readPage (j * PAGE_SIZE) := by
  have hv' := valid_appendChunk hv h0 hfit
  have hle : PRef.pageNumber a.pos ≤ PRef.pageNumber (appendChunk a chunk).pos := by
    rw [← hv.length_pages, ← hv'.length_pages]
    rcases Nat.lt_or_eq_of_le hfit with hlt | hfull
    · rw [appendChunk_of_room a chunk (by omega) hlt]
    · rw [appendChunk_full a chunk hfull]; simp
  rw [readPage_of_lt hj, readPage_of_lt (by omega)]
  rcases Nat.lt_or_eq_of_le hfit with hlt | hfull
  · rw [appendChunk_of_room a chunk (by omega) hlt]
  · rw [appendChunk_full a chunk hfull]
    simp [List.getElem?_append_left (hv.length_pages ▸ hj)]

/-! ## One pass of the write loop -/

theorem div_mod_of_toStream {p i : Nat} (hp : PRef.inPagePos p + i < PAGE_PAYLOAD_SIZE) :
    (PRef.toStream p + i) / PAGE_PAYLOAD_SIZE = PRef.pageNumber p ∧
      (PRef.toStream p + i) % PAGE_PAYLOAD_SIZE = PRef.inPagePos p + i := by
  unfold PRef.toStream
  constructor <;> unfold PAGE_PAYLOAD_SIZE at * <;> omega

/-- A pass of the write loop keeps every stream byte before the position. -/
theorem streamByte_appendChunk_lt {a : PagedFileAppender} {chunk : List UInt8} (hv : Valid a)
    (h0 : 0 < chunk.length) (hfit : PRef.inPagePos a.pos + chunk.length ≤ PAGE_PAYLOAD_SIZE)
    {t : Nat} (ht : t < PRef.toStream a.pos) :
    (appendChunk a chunk).streamByte t = a.streamByte t := by
  unfold streamByte
  have hdiv : t / PAGE_PAYLOAD_SIZE ≤ PRef.pageNumber a.pos := by
    unfold PRef.toStream at ht; unfold PAGE_PAYLOAD_SIZE at *
    have := hv.inPagePos_lt; unfold PAGE_PAYLOAD_SIZE at this; omega
  rcases Nat.lt_or_eq_of_le hdiv with hlt | heq
  · rw [readPage_appendChunk_lt hv h0 hfit hlt]
  · have hmod : t % PAGE_PAYLOAD_SIZE < PRef.inPagePos a.pos := by
      unfold PRef.toStream at ht; unfold PAGE_PAYLOAD_SIZE at *; omega
    obtain ⟨pg, hpg⟩ := exists_page hv (by omega)
    obtain ⟨pg', hpg', hpay⟩ := readPage_appendChunk_this hv h0 hfit
    rw [heq, hpg', readPage_this hpg]
    simp only [Option.some_bind, hpay, chunkPage, hpg, Option.getD_some, Page.write_payload,
      getElem?_splice, pg.payload_length]
    rw [if_pos (Nat.mod_lt _ (by decide)), if_neg (by omega)]

/-- A pass of the write loop puts its chunk at the position. -/
theorem streamByte_appendChunk_write {a : PagedFileAppender} {chunk : List UInt8} (hv : Valid a)
    (h0 : 0 < chunk.length) (hfit : PRef.inPagePos a.pos + chunk.length ≤ PAGE_PAYLOAD_SIZE)
    {i : Nat} (hi : i < chunk.length) :
    (appendChunk a chunk).streamByte (PRef.toStream a.pos + i) = chunk[i]? := by
  obtain ⟨hdiv, hmod⟩ := div_mod_of_toStream (p := a.pos) (i := i) (by omega)
  obtain ⟨pg', hpg', hpay⟩ := readPage_appendChunk_this hv h0 hfit
  have hlen : (a.page.getD (Page.new a.lep)).payload.length = PAGE_PAYLOAD_SIZE :=
    Page.payload_length _
  unfold streamByte
  rw [hdiv, hpg', hmod]
  simp only [Option.some_bind, hpay, chunkPage, Page.write_payload, getElem?_splice, hlen,
    if_pos (show PRef.inPagePos a.pos + i < PAGE_PAYLOAD_SIZE by omega),
    if_pos (show PRef.inPagePos a.pos ≤ PRef.inPagePos a.pos + i ∧
      PRef.inPagePos a.pos + i < PRef.inPagePos a.pos + chunk.length by omega),
    Nat.add_sub_cancel_left]

/-! ## The write loop -/

/-- The write loop moves the stream index by the number of bytes written. -/
theorem appendLoop_toStream (rest : List UInt8) {a a' : PagedFileAppender} (hv : Valid a)
    (h : appendLoop a rest = .ok a') :
    PRef.toStream a'.pos = PRef.toStream a.pos + rest.length := by
  refine appendLoop_induction (fun a rest => ∀ a', appendLoop a rest = .ok a' →
      PRef.toStream a'.pos = PRef.toStream a.pos + rest.length) ?_ ?_ rest a hv a' h
  · intro a _ a' h
    simp only [appendLoop_nil, Except.ok.injEq] at h
    simp [h]
  · intro a rest hv hr hsp hfit _ ih a' h
    rw [appendLoop_step a hr (Nat.le_of_lt hv.inPagePos_lt)] at h
    have hle : space a rest ≤ rest.length := Nat.min_le_right _ _
    have hlen : (rest.take (space a rest)).length = space a rest := by
      simp [space]
    rw [ih a' h, appendChunk_pos a _ (by omega), PRef.toStream_ofStream, hlen, List.length_drop]
    omega

/-- The write loop keeps every stream byte before the position. -/
theorem appendLoop_frame (rest : List UInt8) {a a' : PagedFileAppender} (hv : Valid a)
    (h : appendLoop a rest = .ok a') {t : Nat} (ht : t < PRef.toStream a.pos) :
    a'.streamByte t = a.streamByte t := by
  refine appendLoop_induction (fun a rest => ∀ a', appendLoop a rest = .ok a' →
      ∀ t, t < PRef.toStream a.pos → a'.streamByte t = a.streamByte t) ?_ ?_ rest a hv a' h t ht
  · intro a _ a' h t _
    simp only [appendLoop_nil, Except.ok.injEq] at h
    rw [h]
  · intro a rest hv hr hsp hfit _ ih a' h t ht
    rw [appendLoop_step a hr (Nat.le_of_lt hv.inPagePos_lt)] at h
    have hlen : (rest.take (space a rest)).length = space a rest := by
      simp [space]
    rw [ih a' h t (by rw [appendChunk_pos a _ (by omega), PRef.toStream_ofStream]; omega),
      streamByte_appendChunk_lt hv (by omega) (by omega) ht]

/-- The write loop puts its bytes at the stream index of the starting position. -/
theorem appendLoop_write (rest : List UInt8) {a a' : PagedFileAppender} (hv : Valid a)
    (h : appendLoop a rest = .ok a') {i : Nat} (hi : i < rest.length) :
    a'.streamByte (PRef.toStream a.pos + i) = rest[i]? := by
  refine appendLoop_induction (fun a rest => ∀ a', appendLoop a rest = .ok a' →
      ∀ i, i < rest.length → a'.streamByte (PRef.toStream a.pos + i) = rest[i]?) ?_ ?_ rest a hv
      a' h i hi
  · intro a _ a' _ i hi
    exact absurd hi (Nat.not_lt_zero i)
  · intro a rest hv hr hsp hfit hv' ih a' h i hi
    rw [appendLoop_step a hr (Nat.le_of_lt hv.inPagePos_lt)] at h
    have hlen : (rest.take (space a rest)).length = space a rest := by
      simp [space]
    have hpos : PRef.toStream (appendChunk a (rest.take (space a rest))).pos =
        PRef.toStream a.pos + space a rest := by
      rw [appendChunk_pos a _ (by omega), PRef.toStream_ofStream, hlen]
    by_cases hik : i < space a rest
    · rw [appendLoop_frame _ hv' h (by omega), streamByte_appendChunk_write hv (by omega) (by omega)
        (by omega), List.getElem?_take, if_pos hik]
    · have := ih a' h (i - space a rest) (by simp; omega)
      rwa [hpos, List.getElem?_drop, Nat.add_assoc, Nat.add_sub_cancel' (by omega)] at this

/-! ## Flushes and sequences of calls -/

theorem pageNumber_flush {a : PagedFileAppender} (h0 : 0 < PRef.inPagePos a.pos) {pg : Page}
    (hpg : a.page = some pg) : PRef.pageNumber a.flush.pos = PRef.pageNumber a.pos + 1 := by
  rw [flush_of_pos hpg h0]
  unfold PRef.pageNumber PRef.inPagePos at *; unfold PAGE_SIZE at *; simp only; omega

/-- A flush keeps every stream byte before the position: the page it hands to the file shows the
same payload as the page object did. -/
theorem streamByte_flush_lt {a : PagedFileAppender} (hv : Valid a) {t : Nat}
    (ht : t < PRef.toStream a.pos) : a.flush.streamByte t = a.streamByte t := by
  by_cases h0 : PRef.inPagePos a.pos = 0
  · rw [flush_of_zero h0]
  · obtain ⟨pg, hpg⟩ := exists_page hv (Nat.pos_of_ne_zero h0)
    have hk := pageNumber_flush (Nat.pos_of_ne_zero h0) hpg
    have hdiv : t / PAGE_PAYLOAD_SIZE ≤ PRef.pageNumber a.pos := by
      have := hv.inPagePos_lt
      unfold PRef.toStream at ht; unfold PAGE_PAYLOAD_SIZE at *; omega
    unfold streamByte
    rw [readPage_of_lt (a := a.flush) (by omega)]
    rcases Nat.lt_or_eq_of_le hdiv with hlt | heq
    · rw [readPage_of_lt hlt, flush_of_pos hpg (Nat.pos_of_ne_zero h0)]
      simp [List.getElem?_append_left (hv.length_pages ▸ hlt)]
    · rw [heq, readPage_this hpg, flush_of_pos hpg (Nat.pos_of_ne_zero h0)]
      simp [← hv.length_pages]

theorem toStream_flush_le {a : PagedFileAppender} (hv : Valid a) :
    PRef.toStream a.pos ≤ PRef.toStream a.flush.pos := by
  by_cases h0 : PRef.inPagePos a.pos = 0
  · rw [flush_of_zero h0]
  · obtain ⟨pg, hpg⟩ := exists_page hv (Nat.pos_of_ne_zero h0)
    have hk := pageNumber_flush (Nat.pos_of_ne_zero h0) hpg
    have hz : PRef.inPagePos a.flush.pos = 0 := by
      rw [flush_of_pos hpg (Nat.pos_of_ne_zero h0)]
      unfold PRef.inPagePos at *; unfold PAGE_SIZE at *; simp only; omega
    have := hv.inPagePos_lt
    unfold PRef.toStream
    rw [hk, hz]
    unfold PAGE_PAYLOAD_SIZE at *
    omega

/-- One call keeps every stream byte before the position and does not move the position back. -/
theorem step_frame {a a' : PagedFileAppender} (hv : Valid a) (h : Step a a') :
    PRef.toStream a.pos ≤ PRef.toStream a'.pos ∧
      ∀ t, t < PRef.toStream a.pos → a'.streamByte t = a.streamByte t := by
  cases h with
  | @append a' buf q h =>
    simp only [append, Except.map] at h
    split at h
    · cases h
    · rename_i a'' hloop
      cases h
      exact ⟨by rw [appendLoop_toStream buf hv hloop]; omega,
        fun t ht => appendLoop_frame buf hv hloop ht⟩
  | advance => exact ⟨le_refl _, fun _ _ => rfl⟩
  | flush => exact ⟨toStream_flush_le hv, fun _ ht => streamByte_flush_lt hv ht⟩

/-- Any sequence of calls keeps every stream byte before the position. -/
theorem steps_frame {a a' : PagedFileAppender} (hv : Valid a)
    (h : Relation.ReflTransGen Step a a') :
    PRef.toStream a.pos ≤ PRef.toStream a'.pos ∧
      ∀ t, t < PRef.toStream a.pos → a'.streamByte t = a.streamByte t := by
  induction h with
  | refl => exact ⟨le_refl _, fun _ _ => rfl⟩
  | tail hab hstep ih =>
    obtain ⟨hle, hfr⟩ := step_frame (valid_of_steps hv hab) hstep
    exact ⟨ih.1.trans hle, fun t ht => (hfr t (by omega)).trans (ih.2 t ht)⟩

/-! ## Reading -/

/-- The read loop returns the stream bytes it passes, and the position after them. -/
theorem readLoop_of_streamByte (a : PagedFileAppender) :
    ∀ (bytes : List UInt8) (pos : Nat) (filled rest : List UInt8),
      PRef.inPagePos pos < PAGE_PAYLOAD_SIZE → rest.length = bytes.length →
      (∀ i, i < bytes.length → a.streamByte (PRef.toStream pos + i) = bytes[i]?) →
      a.readLoop pos filled rest =
        .ok (filled ++ bytes, PRef.ofStream (PRef.toStream pos + bytes.length)) := by
  suffices ∀ n (bytes : List UInt8), bytes.length = n → ∀ (pos : Nat) (filled rest : List UInt8),
      PRef.inPagePos pos < PAGE_PAYLOAD_SIZE → rest.length = bytes.length →
      (∀ i, i < bytes.length → a.streamByte (PRef.toStream pos + i) = bytes[i]?) →
      a.readLoop pos filled rest =
        .ok (filled ++ bytes, PRef.ofStream (PRef.toStream pos + bytes.length)) from
    fun bytes => this _ bytes rfl
  intro n
  induction n using Nat.strong_induction_on with
  | _ n ih =>
  intro bytes h pos filled rest hp hlen hbytes
  by_cases hr : rest = []
  · subst hr
    have hb : bytes = [] := List.eq_nil_of_length_eq_zero (by simp at hlen; omega)
    subst hb
    simp [readLoop_nil, PRef.ofStream_toStream hp]
  · have hne : bytes ≠ [] := by
      intro hb; subst hb; exact hr (List.eq_nil_of_length_eq_zero hlen)
    obtain ⟨b0, hb0⟩ : ∃ b0, bytes[0]? = some b0 := by
      cases bytes with
      | nil => exact absurd rfl hne
      | cons x _ => exact ⟨x, by simp⟩
    have hfirst := hbytes 0 (by rw [← hlen]; exact List.length_pos.mpr hr)
    obtain ⟨hdiv0, _⟩ := div_mod_of_toStream (p := pos) (i := 0) (by omega)
    unfold streamByte at hfirst
    rw [hdiv0] at hfirst
    obtain ⟨page, hpage⟩ : ∃ page, a.readPage (PRef.pageNumber pos * PAGE_SIZE) = some page := by
      cases hrp : a.readPage (PRef.pageNumber pos * PAGE_SIZE) with
      | none => rw [hrp, Option.none_bind, hb0] at hfirst; cases hfirst
      | some page => exact ⟨page, rfl⟩
    set k := min (PAGE_PAYLOAD_SIZE - PRef.inPagePos pos) rest.length with hk
    have hkpos : 0 < k := by
      have : rest.length ≠ 0 := by simpa using hr
      omega
    have hkle : k ≤ bytes.length := by omega
    have hread : page.read (PRef.inPagePos pos) k = bytes.take k := by
      apply List.ext_getElem?
      intro i
      rw [Page.read, List.getElem?_take, List.getElem?_take, List.getElem?_drop]
      by_cases hi : i < k
      · rw [if_pos hi, if_pos hi]
        obtain ⟨hd, hm⟩ := div_mod_of_toStream (p := pos) (i := i) (by omega)
        have := hbytes i (by omega)
        unfold streamByte at this
        rwa [hd, hpage, hm, Option.some_bind] at this
      · rw [if_neg hi, if_neg hi]
    rw [readLoop_step a hr (by rwa [PRef.thisPage_eq_mul]) (Nat.le_of_lt hp), ← hk, hread,
      PRef.advance_chunk (by omega)]
    have hrec := ih (bytes.length - k) (by omega) (bytes.drop k) (by simp)
      (PRef.ofStream (PRef.toStream pos + k)) (filled ++ bytes.take k) (rest.drop k)
      (by rw [PRef.inPagePos_ofStream]; exact Nat.mod_lt _ (by decide)) (by simp; omega)
      (fun i hi => by
        rw [PRef.toStream_ofStream, List.getElem?_drop, Nat.add_assoc]
        exact hbytes (k + i) (by simp at hi; omega))
    rw [hrec, List.append_assoc, List.take_append_drop, PRef.toStream_ofStream, List.length_drop,
      Nat.add_assoc, Nat.add_sub_cancel' hkle]

/-! ## Read your writes -/

theorem append_eq_ok {a a' : PagedFileAppender} {buf : List UInt8} {q : Nat} :
    a.append buf = .ok (a', q) ↔ a.appendLoop buf = .ok a' ∧ q = a'.pos := by
  unfold append
  cases a.appendLoop buf with
  | error e => simp [Except.map]
  | ok a'' =>
    simp only [Except.map, Except.ok.injEq, Prod.mk.injEq]
    constructor
    · rintro ⟨rfl, rfl⟩; exact ⟨rfl, rfl⟩
    · rintro ⟨rfl, rfl⟩; exact ⟨rfl, rfl⟩

/-- Read your writes.  Open the appender at the end of its file and run any sequence of
`append`, `advance` and `flush`.  A slice `b` appended at position `p`, the call returning `q`,
reads back from `p` at any later point of the sequence, whether its bytes are still in the page
object or in the file, and the read returns `q`. -/
theorem append_read_back {file : MemFile} {lep : Nat} {a₁ a₂ a₃ : PagedFileAppender}
    {b buf : List UInt8} {q : Nat}
    (h₁ : Relation.ReflTransGen Step (new file file.len lep) a₁)
    (h₂ : a₁.append b = .ok (a₂, q)) (h₃ : Relation.ReflTransGen Step a₂ a₃)
    (hbuf : buf.length = b.length) :
    a₃.read a₁.pos buf = .ok (b, q) := by
  have hv₁ := valid_of_steps (valid_new file lep) h₁
  obtain ⟨hloop, rfl⟩ := append_eq_ok.mp h₂
  have hv₂ : Valid a₂ := valid_append hv₁ h₂
  have hpos := appendLoop_toStream b hv₁ hloop
  obtain ⟨-, hframe⟩ := steps_frame hv₂ h₃
  rw [read, readLoop_of_streamByte a₃ b a₁.pos [] buf hv₁.inPagePos_lt hbuf
    (fun i hi => by rw [hframe _ (by omega), appendLoop_write b hv₁ hloop hi]), ← hpos,
    PRef.ofStream_toStream hv₂.inPagePos_lt, List.nil_append]

/-- `append_read_back` on one run: `append([7])` on an empty file, then `flush()`. -/
theorem append_read_back_after_flush :
    Relation.ReflTransGen Step (new ⟨[]⟩ (MemFile.len ⟨[]⟩) PRef.invalid)
        (new ⟨[]⟩ 0 PRef.invalid) ∧
      (new ⟨[]⟩ 0 PRef.invalid).append [7] =
        .ok (appendChunk (new ⟨[]⟩ 0 PRef.invalid) [7], 1) ∧
      Relation.ReflTransGen Step (appendChunk (new ⟨[]⟩ 0 PRef.invalid) [7])
        (appendChunk (new ⟨[]⟩ 0 PRef.invalid) [7]).flush ∧
      [0].length = [7].length ∧
      (appendChunk (new ⟨[]⟩ 0 PRef.invalid) [7]).flush.read 0 [0] = .ok ([7], 1) := by
  have hspace : space (new ⟨[]⟩ 0 PRef.invalid) [7] = 1 := by decide
  have happ : (new ⟨[]⟩ 0 PRef.invalid).append [7] =
      .ok (appendChunk (new ⟨[]⟩ 0 PRef.invalid) [7], 1) := by
    rw [append_eq_ok, appendLoop_step _ (by simp) (by decide), hspace]
    exact ⟨appendLoop_nil _, by rw [appendChunk_of_room _ _ (by decide) (by decide)]; rfl⟩
  exact ⟨Relation.ReflTransGen.refl, happ, Relation.ReflTransGen.single (Step.flush _), rfl,
    append_read_back Relation.ReflTransGen.refl happ
      (Relation.ReflTransGen.single (Step.flush _)) rfl⟩

end Hammersbald.PagedFileAppender
