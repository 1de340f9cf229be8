import Hammersbald.PagedFile.Appender

/-!
# The page iterator of `pagedfile.rs`

`PagedFileIterator::new(file, pref)` starts at the page number of `pref`, and `next` reads the page
at `pagenumber * PAGE_SIZE` while `pagenumber ≤ (1 << 35) / PAGE_SIZE`.  The bound is a byte count
of `2^35` turned into the page number `2^23`, while positions have 48 bits.

The results.

* `pagedFileIter_eq`: over a file whose `read_page` returns a page exactly at the page-aligned
  positions below `n * PAGE_SIZE`, the iterator yields the pages below `min n (2^23 + 1)`, in
  order.
* `pagedFileIter_complete`: a file of at most `2^23 + 1` pages is read whole.
* `pagedFileIter_stops_at_bound`: a file of `2^23 + 2` pages, about 32 GiB, is read only up to
  page `2^23`.
-/

namespace Hammersbald

/-- Modelled from the spec: a `PagedFile` of `len` bytes whose `read_page` returns a page at every
position below `len`, and `None` from `len` on. -/
def pagesBelow (len : Nat) (pref : Nat) : Option Page :=
  if pref < len then some (Page.new pref) else none

theorem isSome_pagesBelow (len i : Nat) :
    (pagesBelow len (i * PAGE_SIZE)).isSome ↔ i * PAGE_SIZE < len := by
  unfold pagesBelow
  split_ifs with h <;> simp [h]

/-- The iterator yields the pages from `k` on below `n` and below the page-number bound, in order,
where the file holds a page exactly at the page-aligned positions below `n * PAGE_SIZE`. -/
theorem pagedFileIter_eq {file : Nat → Option Page} {n : Nat}
    (hfile : ∀ i, (file (i * PAGE_SIZE)).isSome ↔ i < n) (k : Nat) :
    (pagedFileIter file k).map some =
      (List.range' k (min n (2 ^ 35 / PAGE_SIZE + 1) - k)).map fun i => file (i * PAGE_SIZE) := by
  suffices h : ∀ m k, min n (2 ^ 35 / PAGE_SIZE + 1) - k = m →
      (pagedFileIter file k).map some = (List.range' k m).map fun i => file (i * PAGE_SIZE) from
    h _ k rfl
  intro m
  induction m with
  | zero =>
    intro k hm
    rw [List.range'_zero, List.map_nil]
    rcases Nat.lt_or_ge (2 ^ 35 / PAGE_SIZE) k with hb | hb
    · rw [pagedFileIter_of_gt hb, List.map_nil]
    · have hk : ¬k < n := by omega
      rw [pagedFileIter_of_none (Option.not_isSome_iff_eq_none.mp (mt (hfile k).mp hk)),
        List.map_nil]
  | succ m ih =>
    intro k hm
    obtain ⟨pg, hpg⟩ := Option.isSome_iff_exists.mp ((hfile k).mpr (by omega))
    rw [List.range'_succ, List.map_cons, pagedFileIter_of_some (by omega) hpg, List.map_cons,
      hpg, ih (k + 1) (by omega)]

/-- Every file of at most `2^23 + 1` pages is read whole, in order. -/
theorem pagedFileIter_complete {file : Nat → Option Page} {len : Nat}
    (hlen : len % PAGE_SIZE = 0) (hb : len ≤ (2 ^ 35 / PAGE_SIZE + 1) * PAGE_SIZE)
    (hfile : ∀ i, (file (i * PAGE_SIZE)).isSome ↔ i * PAGE_SIZE < len) :
    (pagedFileIter file 0).map some =
      (List.range (len / PAGE_SIZE)).map fun i => file (i * PAGE_SIZE) := by
  have hn : ∀ i, i * PAGE_SIZE < len ↔ i < len / PAGE_SIZE := fun i => by
    unfold PAGE_SIZE at *; omega
  have hle : len / PAGE_SIZE ≤ 2 ^ 35 / PAGE_SIZE + 1 := by unfold PAGE_SIZE at *; omega
  rw [pagedFileIter_eq (fun i => (hfile i).trans (hn i)) 0, List.range_eq_range', Nat.sub_zero,
    Nat.min_eq_left hle]

theorem pagedFileIter_complete_of_two_pages :
    2 * PAGE_SIZE % PAGE_SIZE = 0 ∧ 2 * PAGE_SIZE ≤ (2 ^ 35 / PAGE_SIZE + 1) * PAGE_SIZE ∧
      (∀ i, (pagesBelow (2 * PAGE_SIZE) (i * PAGE_SIZE)).isSome ↔ i * PAGE_SIZE < 2 * PAGE_SIZE) ∧
      (pagedFileIter (pagesBelow (2 * PAGE_SIZE)) 0).map some =
        (List.range (2 * PAGE_SIZE / PAGE_SIZE)).map fun i => pagesBelow (2 * PAGE_SIZE) (i * PAGE_SIZE) :=
  ⟨by decide, by decide, isSome_pagesBelow _,
    pagedFileIter_complete (by decide) (by decide) (isSome_pagesBelow _)⟩

/-- A file of `2^23 + 2` pages, within the 48-bit positions: its `read_page` returns a page exactly
at the page-aligned positions below its length, and the iterator from `PRef 0` yields one page
fewer than the file holds. -/
theorem pagedFileIter_stops_at_bound :
    (2 ^ 23 + 2) * PAGE_SIZE < 2 ^ 48 ∧ (2 ^ 23 + 2) * PAGE_SIZE % PAGE_SIZE = 0 ∧
      (∀ i, (pagesBelow ((2 ^ 23 + 2) * PAGE_SIZE) (i * PAGE_SIZE)).isSome ↔
        i * PAGE_SIZE < (2 ^ 23 + 2) * PAGE_SIZE) ∧
      (pagedFileIter (pagesBelow ((2 ^ 23 + 2) * PAGE_SIZE)) 0).length = 2 ^ 23 + 1 ∧
      (2 ^ 23 + 2) * PAGE_SIZE / PAGE_SIZE = 2 ^ 23 + 2 := by
  have hfile : ∀ i, (pagesBelow ((2 ^ 23 + 2) * PAGE_SIZE) (i * PAGE_SIZE)).isSome ↔ i < 2 ^ 23 + 2 :=
    fun i => (isSome_pagesBelow _ i).trans (by unfold PAGE_SIZE; omega)
  refine ⟨by decide, by decide, isSome_pagesBelow _, ?_, by decide⟩
  have h := congrArg List.length (pagedFileIter_eq hfile 0)
  rw [List.length_map, List.length_map, List.length_range'] at h
  rw [h]
  decide

end Hammersbald
