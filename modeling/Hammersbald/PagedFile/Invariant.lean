import Hammersbald.PagedFile.Appender
import Mathlib.Logic.Relation

/-!
# The position invariant of the appender

`Valid` is what holds in every appender state reachable from `new(file, file.len(), lep)`: the
position is inside a payload, the file holds exactly the pages before the position's page, and a
missing page object means the position is at a page start.

* `valid_new`, `valid_appendChunk`, `valid_advance` and `valid_flush` are the step lemmas.
* `appendLoop_induction` packages the induction over the write loop once: under `Valid` every
  pass writes a nonempty chunk that fits in the payload.  `appendLoop_ok` is its first use: the
  loop of a valid appender never panics and ends valid.
* `Step` is one call of a sequence of `append(buf)`, `advance()` and `flush()`, and
  `valid_of_steps` carries `Valid` along any sequence of them.
* `Call` adds `truncate(new_len)` to a page-aligned length, which makes any appender valid
  (`valid_truncate`).  `position_invariant_of_calls` states what `Valid` gives in every state
  reachable by calls: the file ends at the position's page, so a page handed to it lands there,
  and `append` returns `Ok` for every buffer.
-/

namespace Hammersbald.PagedFileAppender

/-- The invariant of the reachable appender states. -/
structure Valid (a : PagedFileAppender) : Prop where
  inPagePos_lt : PRef.inPagePos a.pos < PAGE_PAYLOAD_SIZE
  length_pages : a.file.pages.length = PRef.pageNumber a.pos
  page_of_pos : a.page = none → PRef.inPagePos a.pos = 0

/-- An appender opened at the end of its file is valid. -/
theorem valid_new (file : MemFile) (lep : Nat) : Valid (new file file.len lep) where
  inPagePos_lt := by
    simp only [new, MemFile.len, PRef.inPagePos, PAGE_SIZE, PAGE_PAYLOAD_SIZE]; omega
  length_pages := by
    simp only [new, MemFile.len, PRef.pageNumber, PAGE_SIZE]; omega
  page_of_pos _ := by
    simp only [new, MemFile.len, PRef.inPagePos, PAGE_SIZE]; omega

/-- One pass of the write loop keeps the invariant. -/
theorem valid_appendChunk {a : PagedFileAppender} {chunk : List UInt8} (hv : Valid a)
    (h0 : 0 < chunk.length) (hfit : PRef.inPagePos a.pos + chunk.length ≤ PAGE_PAYLOAD_SIZE) :
    Valid (appendChunk a chunk) := by
  rcases Nat.lt_or_eq_of_le hfit with hlt | hfull
  · rw [appendChunk_of_room a chunk (by omega) hlt]
    have hin : PRef.inPagePos a.pos + chunk.length < PAGE_SIZE := by
      unfold PAGE_SIZE; unfold PAGE_PAYLOAD_SIZE at hlt; omega
    exact ⟨by simpa [PRef.inPagePos_add hin] using hlt,
      by simpa [PRef.pageNumber_add hin] using hv.length_pages, by simp⟩
  · rw [appendChunk_full a chunk hfull]
    exact ⟨by rw [PRef.inPagePos_add_trailer hfull]; decide,
      by simp [PRef.pageNumber_add_trailer hfull, hv.length_pages],
      fun _ => PRef.inPagePos_add_trailer hfull⟩

theorem space_pos {a : PagedFileAppender} {rest : List UInt8} (hv : Valid a) (hr : rest ≠ []) :
    0 < space a rest := by
  have hlt := hv.inPagePos_lt
  have hne : rest.length ≠ 0 := by simpa using hr
  unfold space; omega

theorem inPagePos_add_space_le {a : PagedFileAppender} (rest : List UInt8)
    (h : PRef.inPagePos a.pos ≤ PAGE_PAYLOAD_SIZE) :
    PRef.inPagePos a.pos + space a rest ≤ PAGE_PAYLOAD_SIZE := by
  unfold space; omega

/-- Induction over the write loop of a valid appender: every pass writes the nonempty chunk
`rest.take (space a rest)`, which fits in the payload, and leaves a valid appender. -/
theorem appendLoop_induction (motive : PagedFileAppender → List UInt8 → Prop)
    (nil : ∀ a, Valid a → motive a [])
    (step : ∀ a rest, Valid a → rest ≠ [] → 0 < space a rest →
      PRef.inPagePos a.pos + space a rest ≤ PAGE_PAYLOAD_SIZE →
      Valid (appendChunk a (rest.take (space a rest))) →
      motive (appendChunk a (rest.take (space a rest))) (rest.drop (space a rest)) →
      motive a rest) :
    ∀ (rest : List UInt8) (a : PagedFileAppender), Valid a → motive a rest := by
  suffices ∀ n (rest : List UInt8), rest.length = n → ∀ a, Valid a → motive a rest from
    fun rest => this _ rest rfl
  intro n
  induction n using Nat.strong_induction_on with
  | _ n ih =>
    intro rest hn a hv
    by_cases hr : rest = []
    · subst hr; exact nil a hv
    · have hsp := space_pos hv hr
      have hfit := inPagePos_add_space_le rest (Nat.le_of_lt hv.inPagePos_lt)
      have hle : space a rest ≤ rest.length := Nat.min_le_right _ _
      have hv' : Valid (appendChunk a (rest.take (space a rest))) :=
        valid_appendChunk hv (by simp; omega) (by simp; omega)
      exact step a rest hv hr hsp hfit hv'
        (ih _ (by simp only [List.length_drop]; omega) _ rfl _ hv')

/-- The write loop of a valid appender never panics, and ends valid. -/
theorem appendLoop_ok (rest : List UInt8) {a : PagedFileAppender} (hv : Valid a) :
    ∃ a', appendLoop a rest = .ok a' ∧ Valid a' := by
  refine appendLoop_induction (fun a rest => ∃ a', appendLoop a rest = .ok a' ∧ Valid a')
    (fun a hv => ⟨a, appendLoop_nil a, hv⟩) ?_ rest a hv
  intro a rest hv hr _ _ _ ih
  rwa [appendLoop_step a hr (Nat.le_of_lt hv.inPagePos_lt)]

theorem valid_append {a a' : PagedFileAppender} {buf : List UInt8} {q : Nat} (hv : Valid a)
    (h : a.append buf = .ok (a', q)) : Valid a' := by
  obtain ⟨a'', h'', hv''⟩ := appendLoop_ok buf hv
  simp only [append, h'', Except.map] at h
  cases h
  exact hv''

theorem valid_advance {a : PagedFileAppender} (hv : Valid a) : Valid a.advance :=
  ⟨hv.inPagePos_lt, hv.length_pages, hv.page_of_pos⟩

/-- `flush` keeps the invariant: a page with bytes in it goes to the file, and the position moves
to the start of the next page. -/
theorem valid_flush {a : PagedFileAppender} (hv : Valid a) : Valid a.flush := by
  by_cases h0 : PRef.inPagePos a.pos = 0
  · rwa [flush_of_zero h0]
  · obtain ⟨pg, hpg⟩ := Option.ne_none_iff_exists'.mp (mt hv.page_of_pos h0)
    have hlen := hv.length_pages
    have hlt := hv.inPagePos_lt
    rw [flush_of_pos hpg (Nat.pos_of_ne_zero h0)]
    refine ⟨?_, ?_, by simp⟩ <;> simp only [MemFile.appendPage_pages, List.length_append,
      List.length_singleton] <;> unfold PRef.inPagePos PRef.pageNumber at * <;>
      unfold PAGE_SIZE PAGE_PAYLOAD_SIZE at * <;> omega

/-- `truncate` to a page-aligned length that returns `Ok` makes the appender valid, whatever it
was: it succeeds only when the new last page is in the file, so the file keeps exactly the pages
below the new position.  The page object stays, which a position at a page start allows. -/
theorem valid_truncate {a a' : PagedFileAppender} {newLen : Nat} (hn : newLen % PAGE_SIZE = 0)
    (h : a.truncate newLen = .ok a') : Valid a' := by
  have hin : PRef.inPagePos newLen = 0 := hn
  unfold truncate at h
  split_ifs at h with hge
  · split at h
    · next lastPage hlast =>
      cases h
      have hlt : PRef.pageNumber (newLen - PAGE_SIZE) < a.file.pages.length :=
        (List.getElem?_eq_some_iff.mp hlast).1
      refine ⟨by rw [hin]; decide, ?_, fun _ => hin⟩
      simp only [MemFile.truncate_pages, List.length_take]
      unfold PRef.pageNumber at *; unfold PAGE_SIZE at *; omega
    · cases h
  · cases h
    have h0 : newLen = 0 := by unfold PAGE_SIZE at *; omega
    subst h0
    exact ⟨(by decide : PRef.inPagePos 0 < PAGE_PAYLOAD_SIZE), by simp [PRef.pageNumber],
      fun _ => hin⟩

/-! ## Sequences of calls -/

/-- One call of a sequence of `append(buf)`, `advance()` and `flush()` calls. -/
inductive Step : PagedFileAppender → PagedFileAppender → Prop
  | append {a a' : PagedFileAppender} {buf : List UInt8} {q : Nat} :
      a.append buf = .ok (a', q) → Step a a'
  | advance (a : PagedFileAppender) : Step a a.advance
  | flush (a : PagedFileAppender) : Step a a.flush

theorem valid_step {a a' : PagedFileAppender} (hv : Valid a) (h : Step a a') : Valid a' := by
  cases h with
  | append h => exact valid_append hv h
  | advance => exact valid_advance hv
  | flush => exact valid_flush hv

/-- The invariant holds after any sequence of calls from a valid state. -/
theorem valid_of_steps {a a' : PagedFileAppender} (hv : Valid a)
    (h : Relation.ReflTransGen Step a a') : Valid a' := by
  induction h with
  | refl => exact hv
  | tail _ hstep ih => exact valid_step ih hstep

/-! ## Sequences of calls with `truncate` -/

/-- One call of a sequence of `append(buf)`, `advance()`, `flush()` and `truncate(new_len)` to a
page-aligned length.  A call that returns `Err` leaves the appender as it was, so only the calls
that return `Ok` are steps. -/
inductive Call : PagedFileAppender → PagedFileAppender → Prop
  | step {a a' : PagedFileAppender} : Step a a' → Call a a'
  | truncate {a a' : PagedFileAppender} {newLen : Nat} :
      newLen % PAGE_SIZE = 0 → a.truncate newLen = .ok a' → Call a a'

theorem valid_call {a a' : PagedFileAppender} (hv : Valid a) (h : Call a a') : Valid a' := by
  cases h with
  | step h => exact valid_step hv h
  | truncate hn h => exact valid_truncate hn h

theorem valid_of_calls {a a' : PagedFileAppender} (hv : Valid a)
    (h : Relation.ReflTransGen Call a a') : Valid a' := by
  induction h with
  | refl => exact hv
  | tail _ hcall ih => exact valid_call ih hcall

/-- In a valid state the file ends where the position's page starts. -/
theorem Valid.len_eq {a : PagedFileAppender} (hv : Valid a) : a.len = PRef.thisPage a.pos := by
  rw [len, MemFile.len, hv.length_pages, PRef.thisPage_eq_mul]

/-- In a valid state a page handed to the file lands at the position's page. -/
theorem Valid.readPage_appendPage {a : PagedFileAppender} (hv : Valid a) (pg : Page) :
    (a.file.appendPage pg).readPage (PRef.thisPage a.pos) = some pg := by
  have hpn : PRef.pageNumber (PRef.thisPage a.pos) = a.file.pages.length := by
    rw [hv.length_pages]; unfold PRef.pageNumber PRef.thisPage PAGE_SIZE; omega
  simp [MemFile.readPage, hpn]

/-- A pass of the write loop only adds pages to the file. -/
theorem appendChunk_keeps_pages (a : PagedFileAppender) (chunk : List UInt8) :
    a.file.pages <+: (appendChunk a chunk).file.pages := by
  simp only [appendChunk]
  split <;> split <;> simp

theorem appendLoop_keeps_pages (rest : List UInt8) {a a' : PagedFileAppender} (hv : Valid a)
    (h : appendLoop a rest = .ok a') : a.file.pages <+: a'.file.pages := by
  refine appendLoop_induction (fun a rest => ∀ a', appendLoop a rest = .ok a' →
      a.file.pages <+: a'.file.pages) ?_ ?_ rest a hv a' h
  · intro a _ a' h
    rw [appendLoop_nil] at h
    cases h; exact List.prefix_refl _
  · intro a rest hv hr _ _ _ ih a' h
    rw [appendLoop_step a hr (Nat.le_of_lt hv.inPagePos_lt)] at h
    exact (appendChunk_keeps_pages a _).trans (ih a' h)

/-- The position invariant.  Open the appender at the end of its file and run any sequence of
`append`, `advance`, `flush` and page-aligned `truncate`.  In every state the position is inside
a payload and the file ends where the position's page starts, so a page handed to the file lands
at the position's page.  `append(buf)` then returns `Ok` for every `buf`, so
`PAGE_PAYLOAD_SIZE - pos.in_page_pos()` never underflows; it only adds pages to the file, and they
fill the file up to the new position's page. -/
theorem position_invariant_of_calls {file : MemFile} {lep : Nat} {a : PagedFileAppender}
    (h : Relation.ReflTransGen Call (new file file.len lep) a) :
    PRef.inPagePos a.pos < PAGE_PAYLOAD_SIZE ∧ a.len = PRef.thisPage a.pos ∧
      (∀ pg, (a.file.appendPage pg).readPage (PRef.thisPage a.pos) = some pg) ∧
      ∀ buf, ∃ a', a.append buf = .ok (a', a'.pos) ∧ a.file.pages <+: a'.file.pages ∧
        a'.len = PRef.thisPage a'.pos := by
  have hv := valid_of_calls (valid_new file lep) h
  refine ⟨hv.inPagePos_lt, hv.len_eq, hv.readPage_appendPage, fun buf => ?_⟩
  obtain ⟨a', hloop, hv'⟩ := appendLoop_ok buf hv
  exact ⟨a', by rw [append, hloop]; rfl, appendLoop_keeps_pages buf hv hloop, hv'.len_eq⟩

/-- `position_invariant_of_calls` on one run: `append([7])` on an empty file, `flush()`, then
`truncate(0)`, which keeps the flushed page object. -/
theorem position_invariant_after_truncate :
    Relation.ReflTransGen Call (new ⟨[]⟩ (MemFile.len ⟨[]⟩) PRef.invalid)
        { (appendChunk (new ⟨[]⟩ 0 PRef.invalid) [7]).flush with
          lep := PRef.invalid, pos := 0, file := ⟨[]⟩ } ∧
      PRef.inPagePos 0 < PAGE_PAYLOAD_SIZE ∧
      PagedFileAppender.len { (appendChunk (new ⟨[]⟩ 0 PRef.invalid) [7]).flush with
          lep := PRef.invalid, pos := 0, file := ⟨[]⟩ } = PRef.thisPage 0 := by
  have happ : (new ⟨[]⟩ 0 PRef.invalid).append [7] =
      .ok (appendChunk (new ⟨[]⟩ 0 PRef.invalid) [7],
        (appendChunk (new ⟨[]⟩ 0 PRef.invalid) [7]).pos) := by
    rw [append, appendLoop_step _ (by simp) (by decide)]
    show (appendLoop _ []).map _ = _
    rw [appendLoop_nil]; rfl
  have hrun := ((Relation.ReflTransGen.single (Call.step (Step.append happ))).tail
    (Call.step (Step.flush _))).tail (@Call.truncate _ _ 0 (by decide) rfl)
  exact ⟨hrun, (position_invariant_of_calls hrun).1, (position_invariant_of_calls hrun).2.1⟩

end Hammersbald.PagedFileAppender
