import Hammersbald.DataFile.Reader

/-!
# The data iterator ends and never panics

`DataIterator::next` runs `skip_padding` and `read_slice` over whatever bytes the pages hold.  In
a debug build `read_slice` panics when `PAYLOAD_MAX - self.pos` underflows, a subtraction it makes
at the top of every pass, before it looks at the current page.  The other steps cannot panic:
`skip_padding` reads `payload[pos]` only below `PAYLOAD_MAX`, the payload's length, and
`U24::from_slice` of the three length bytes succeeds.

* `readSliceChecked`, `readEntryChecked` and `nextChecked` are `read_slice`, the body of `next`
  and `next` with that panic.  From a position at most `PAYLOAD_MAX` they return `Ok` with the
  results of the model of the reader (`nextChecked_of_le`).
* `remaining` counts the bytes the iterator has still to read.  `skipPadding_cases`,
  `readSlice_cases`, `readEntry_cases` and `next_cases` say what each step can leave: no page at
  all, or a value read and fewer bytes left; an entry consumes at least four of them.  An
  exhausted iterator stays so (`nexts_exhausted`).
* `nexts_eventually_none`: from any state the iterator yields finitely many entries, at most a
  quarter of the bytes left, and then only `None`.
* `dataIter_terminates` puts them together for an iterator over any pages, with the offsets
  `PageIterator::next` unwraps.
-/

namespace Hammersbald.DataIterator

/-! ## `next` in a debug build -/

/-- `read_slice` in a debug build: every pass first computes `PAYLOAD_MAX - self.pos`. -/
def readSliceChecked (pages : List Page) (current : Option Page) (pos n : Nat) :
    Except String (Option (List UInt8) × DataIterator) :=
  if PAYLOAD_MAX < pos then .error "attempt to subtract with overflow"
  else
    match current with
    | none => .ok (none, ⟨pages, none, pos⟩)
    | some pg =>
      if min (PAYLOAD_MAX - pos) n = n then .ok (some (pg.read pos n), ⟨pages, some pg, pos + n⟩)
      else
        match pages with
        | [] => .ok (none, ⟨[], none, 0⟩)
        | pg' :: pages =>
          (readSliceChecked pages (some pg') 0 (n - (PAYLOAD_MAX - pos))).map fun r =>
            (r.1.map (pg.read pos (PAYLOAD_MAX - pos) ++ ·), r.2)

/-- The body of `DataIterator::next` in a debug build. -/
def readEntryChecked (pages : List Page) (pg : Page) (pos : Nat) :
    Except String (Option DataEntry × DataIterator) :=
  match skipPadding pages (some pg) pos with
  | (none, it) => .ok (none, it)
  | (some dataType, it) => do
    match ← readSliceChecked it.pages it.current it.pos 3 with
    | (none, it) => pure (none, it)
    | (some size, it) =>
      match ← readSliceChecked it.pages it.current it.pos (U24.fromSlice size) with
      | (none, it) => pure (none, it)
      | (some content, it) => pure (some ⟨dataType, content⟩, it)

/-- `DataIterator::next` in a debug build. -/
def nextChecked (it : DataIterator) : Except String (Option DataEntry × DataIterator) :=
  let it : DataIterator := if it.current.isNone then ⟨it.pages.tail, it.pages.head?, 2⟩ else it
  match it.current with
  | some pg => readEntryChecked it.pages pg it.pos
  | none => .ok (none, it)

theorem readSliceChecked_of_le {pages : List Page} {current : Option Page} {pos n : Nat}
    (h : pos ≤ PAYLOAD_MAX) :
    readSliceChecked pages current pos n = .ok (readSlice pages current pos n) := by
  induction pages generalizing current pos n with
  | nil =>
    rcases current with _ | pg <;> simp only [readSliceChecked, readSlice, if_neg (Nat.not_lt.mpr h)]
    split_ifs <;> rfl
  | cons pg' pages ih =>
    rcases current with _ | pg <;> simp only [readSliceChecked, readSlice, if_neg (Nat.not_lt.mpr h)]
    split_ifs
    · rfl
    · rw [ih (Nat.zero_le _)]; rfl

theorem readEntryChecked_of_le {pages : List Page} {pg : Page} {pos : Nat}
    (h : pos ≤ PAYLOAD_MAX) : readEntryChecked pages pg pos = .ok (readEntry pages pg pos) := by
  unfold readEntryChecked readEntry
  rcases h₁ : skipPadding pages (some pg) pos with ⟨_ | dataType, it₁⟩
  · rfl
  have p₁ := skipPadding_pos_le h h₁
  simp only [readSliceChecked_of_le p₁, bind, Except.bind]
  rcases h₂ : readSlice it₁.pages it₁.current it₁.pos 3 with ⟨_ | size, it₂⟩
  · rfl
  simp only [readSliceChecked_of_le (readSlice_pos_le p₁ h₂)]
  rcases readSlice it₂.pages it₂.current it₂.pos (U24.fromSlice size) with ⟨_ | content, it₃⟩ <;> rfl

/-- From a position at most `PAYLOAD_MAX`, `next` does not panic in a debug build. -/
theorem nextChecked_of_le {it : DataIterator} (h : it.pos ≤ PAYLOAD_MAX) :
    nextChecked it = .ok (next it) := by
  obtain ⟨pages, _ | pg, pos⟩ := it
  · cases pages with
    | nil => rfl
    | cons pg pages => exact readEntryChecked_of_le (show 2 ≤ PAYLOAD_MAX by decide)
  · exact readEntryChecked_of_le h

/-! ## Every entry consumes bytes -/

/-- The bytes the iterator has still to read: the rest of the current payload and the payloads of
the pages to come. -/
def remaining : DataIterator → Nat
  | ⟨pages, some _, pos⟩ => PAYLOAD_MAX - pos + pages.length * PAYLOAD_MAX
  | ⟨pages, none, _⟩ => pages.length * PAYLOAD_MAX

theorem remaining_eta {it : DataIterator} {pg : Page} (h : it.current = some pg) :
    remaining ⟨it.pages, some pg, it.pos⟩ = remaining it := by
  obtain ⟨_, _, _⟩ := it; cases h; rfl

/-- Moving to the next page keeps what is left to read. -/
theorem remaining_cons (pages : List Page) (pg pg' : Page) (pos : Nat) :
    remaining ⟨pg' :: pages, some pg, pos⟩ = PAYLOAD_MAX - pos + remaining ⟨pages, some pg', 0⟩ := by
  simp only [remaining, List.length_cons, Nat.add_mul, Nat.one_mul]; omega

/-- The type byte `scan_type` finds is at `pos` or after it. -/
theorem scanType_lt {pg : Page} {pos : Nat} {t : DataType} {pos' : Nat}
    (h : scanType pg pos = some (t, pos')) : pos < pos' := by
  rw [scanType] at h
  split_ifs at h with hlt hne
  · cases h; omega
  · have := scanType_lt h; omega
termination_by PAYLOAD_MAX - pos

theorem skipPadding_nil_of_none {pg : Page} {pos : Nat} (hs : scanType pg pos = none) :
    skipPadding [] (some pg) pos = (none, ⟨[], none, 0⟩) := by
  simp only [skipPadding, hs]

/-- `skip_padding` either runs out of pages, or finds a type, consuming its byte, and stays on a
page. -/
theorem skipPadding_cases (pages : List Page) (pg : Page) (pos : Nat) :
    skipPadding pages (some pg) pos = (none, ⟨[], none, 0⟩) ∨
      ∃ t it, skipPadding pages (some pg) pos = (some t, it) ∧ (∃ pg', it.current = some pg') ∧
        remaining it < remaining ⟨pages, some pg, pos⟩ := by
  rcases hs : scanType pg pos with _ | ⟨t, pos'⟩
  · cases pages with
    | nil => exact .inl (skipPadding_nil_of_none hs)
    | cons pg' pages =>
      rw [skipPadding_next_page hs]
      refine (skipPadding_cases pages pg' 0).imp_right ?_
      rintro ⟨t, it, h, hc, hr⟩
      exact ⟨t, it, h, hc, by rw [remaining_cons]; omega⟩
  · have := scanType_lt hs
    have := scanType_pos_le hs
    exact .inr ⟨t, _, skipPadding_of_scanType hs, ⟨pg, rfl⟩, by simp only [remaining]; omega⟩

/-- `read_slice` of `n` bytes either runs out of pages, or consumes them and stays on a page. -/
theorem readSlice_cases (pages : List Page) (pg : Page) (pos n : Nat) :
    readSlice pages (some pg) pos n = (none, ⟨[], none, 0⟩) ∨
      ∃ bs it, readSlice pages (some pg) pos n = (some bs, it) ∧ (∃ pg', it.current = some pg') ∧
        remaining it + n ≤ remaining ⟨pages, some pg, pos⟩ := by
  by_cases hn : min (PAYLOAD_MAX - pos) n = n
  · exact .inr ⟨_, _, readSlice_of_le (by omega), ⟨pg, rfl⟩, by simp only [remaining]; omega⟩
  cases pages with
  | nil => exact .inl (by simp only [readSlice, if_neg hn])
  | cons pg' pages =>
    simp only [readSlice, if_neg hn]
    rcases readSlice_cases pages pg' 0 (n - (PAYLOAD_MAX - pos)) with h | ⟨bs, it, h, hc, hr⟩ <;>
      rw [h]
    · exact .inl rfl
    · exact .inr ⟨_, it, rfl, hc, by rw [remaining_cons]; omega⟩

/-- The body of `next` either runs out of pages, or reads an entry, consuming at least its type
byte and its three length bytes. -/
theorem readEntry_cases (pages : List Page) (pg : Page) (pos : Nat) :
    readEntry pages pg pos = (none, ⟨[], none, 0⟩) ∨
      ∃ e it, readEntry pages pg pos = (some e, it) ∧ remaining it + 4 ≤ remaining ⟨pages, some pg, pos⟩ := by
  unfold readEntry
  rcases skipPadding_cases pages pg pos with h₁ | ⟨t, it₁, h₁, ⟨pg₁, hc₁⟩, hr₁⟩ <;> rw [h₁]
  · exact .inl rfl
  dsimp only
  rw [hc₁]
  rcases readSlice_cases it₁.pages pg₁ it₁.pos 3 with h₂ | ⟨size, it₂, h₂, ⟨pg₂, hc₂⟩, hr₂⟩ <;>
    rw [h₂]
  · exact .inl rfl
  dsimp only
  rw [hc₂]
  rcases readSlice_cases it₂.pages pg₂ it₂.pos (U24.fromSlice size) with h₃ | ⟨content, it₃, h₃, -, hr₃⟩ <;>
    rw [h₃]
  · exact .inl rfl
  rw [remaining_eta hc₁] at hr₂
  rw [remaining_eta hc₂] at hr₃
  exact .inr ⟨_, it₃, rfl, by omega⟩

/-! ## Finitely many entries -/

theorem next_of_no_current (pg : Page) (pages : List Page) (pos : Nat) :
    next ⟨pg :: pages, none, pos⟩ = readEntry pages pg 2 := rfl

/-- `next` either returns `None` and leaves the iterator exhausted, or yields an entry that takes
at least four of the bytes left. -/
theorem next_cases (it : DataIterator) :
    ((next it).1 = none ∧ ∃ pos, (next it).2 = ⟨[], none, pos⟩) ∨
      ((next it).1.isSome ∧ remaining (next it).2 + 4 ≤ remaining it) := by
  obtain ⟨pages, _ | pg, pos⟩ := it
  · cases pages with
    | nil => exact .inl ⟨rfl, 2, rfl⟩
    | cons pg pages =>
      have hle : remaining ⟨pages, some pg, 2⟩ ≤ remaining ⟨pg :: pages, none, pos⟩ := by
        simp only [remaining, List.length_cons, Nat.add_mul, Nat.one_mul]; omega
      rw [next_of_no_current]
      rcases readEntry_cases pages pg 2 with h | ⟨e, it, h, hr⟩ <;> rw [h]
      · exact .inl ⟨rfl, 0, rfl⟩
      · exact .inr ⟨rfl, hr.trans hle⟩
  · rw [next_of_current]
    rcases readEntry_cases pages pg pos with h | ⟨e, it, h, hr⟩ <;> rw [h]
    · exact .inl ⟨rfl, 0, rfl⟩
    · exact .inr ⟨rfl, hr⟩

/-- An exhausted iterator yields only `None`. -/
theorem nexts_exhausted (k pos : Nat) : nexts k ⟨[], none, pos⟩ = List.replicate k none := by
  induction k generalizing pos with
  | zero => rfl
  | succ k ih => exact congrArg (none :: ·) (ih 2)

/-- From any state the iterator yields finitely many entries, each taking at least four of the
bytes left, and then only `None`. -/
theorem nexts_eventually_none (it : DataIterator) :
    ∃ es : List DataEntry, 4 * es.length ≤ remaining it ∧
      ∀ k, nexts (es.length + 1 + k) it = es.map some ++ List.replicate (k + 1) none := by
  suffices h : ∀ n it, remaining it = n → ∃ es : List DataEntry, 4 * es.length ≤ remaining it ∧
      ∀ k, nexts (es.length + 1 + k) it = es.map some ++ List.replicate (k + 1) none from
    h _ it rfl
  intro n
  induction n using Nat.strong_induction_on with
  | _ n ih =>
    intro it hn
    rcases next_cases it with ⟨hr, pos, hp⟩ | ⟨hs, hlt⟩
    · refine ⟨[], Nat.zero_le _, fun k => ?_⟩
      rw [List.length_nil, show 0 + 1 + k = k + 1 by omega, nexts, hr, hp, nexts_exhausted]
      rfl
    · obtain ⟨e, hr⟩ := Option.isSome_iff_exists.mp hs
      obtain ⟨es, hes, hk⟩ := ih (remaining (next it).2) (by omega) (next it).2 rfl
      refine ⟨e :: es, by rw [List.length_cons]; omega, fun k => ?_⟩
      rw [List.length_cons, show es.length + 1 + 1 + k = es.length + 1 + k + 1 by omega, nexts, hr,
        hk]
      rfl

/-- `DataFile::data_iter` over any pages, whatever bytes they hold.  Every call of `next` keeps
the position at most `PAYLOAD_MAX` and returns without panicking; the iterator yields entries for
at most a quarter of the payload bytes and then only `None`; and `PageIterator::next` builds the
offset of every page below its bound. -/
theorem dataIter_terminates (pages : List Page) :
    (∀ k, ((fun it => (next it).2)^[k] (new pages)).pos ≤ PAYLOAD_MAX ∧
      nextChecked ((fun it => (next it).2)^[k] (new pages)) =
        .ok (next ((fun it => (next it).2)^[k] (new pages)))) ∧
    (∃ es : List DataEntry, 4 * es.length ≤ (payloads pages).length ∧
      ∀ k, nexts (es.length + 1 + k) (new pages) = es.map some ++ List.replicate (k + 1) none) ∧
    ∀ n, n < 2 ^ 47 / PAGE_SIZE → Offset.new (n * PAGE_SIZE) = .ok (n * PAGE_SIZE) := by
  refine ⟨fun k => ⟨iterate_next_pos_le pages k, nextChecked_of_le (iterate_next_pos_le pages k)⟩,
    ?_, fun n hn => if_pos (by unfold PAGE_SIZE at hn ⊢; omega)⟩
  obtain ⟨es, hes, hk⟩ := nexts_eventually_none (new pages)
  exact ⟨es, by rwa [length_payloads], hk⟩

end Hammersbald.DataIterator
