import Hammersbald.SingleFile

/-!
# `read_page` and `update_page` make a page store

`read_page` and `update_page` of `SingleFile` both seek to the page's own position before they
touch the OS file, so the cursor they share does not matter to them.  Over calls of those two
alone, at page boundaries of the chunk, a `SingleFile` is a store of pages: `read_page(o)` returns
the buffer of the last `update_page` at `o`, and where there was none, what it returned before.
`append_page` is not such a call: it writes at the cursor (`append_after_read_page`).

* `window` is what `read_page` returns from a position of the byte array, zeros past its end.
  `window_writeAt_self` and `window_writeAt_of_disjoint`: a page written at a position reads back
  there, and leaves every window it does not overlap.
* `pageAt_exec`: one call keeps the store, and `pageAt_execAll` any sequence of calls.
* `readPage_execAll_store`: after any sequence of `read_page` and page-aligned `update_page`
  calls, `read_page(o)` returns the last buffer written at `o`, or the page it returned before.

With `truncate` to page boundaries as well, `SingleFile` implements `Store`, a page store whose
pages past its length are zeros: `truncate` cuts the store, `update_page` writes one page and
makes the store reach past it.

* `Holds.exec` and `Holds.execAll`: every call of the store keeps the relation between the file
  and the store; `Holds.readPage`: then `read_page` at a page boundary answers as the store.
* `readPage_execAll_holds`: from a file whose `len` is its length, `len` and `read_page` follow
  the store over any run.
* `readPage_truncated`: a page that `truncate` cuts reads as `None` or zeros until the next
  `update_page` at it.
-/

namespace Hammersbald

/-! ## Windows of the byte array -/

/-- What `read_page` returns from position `pos` of the byte array: `PAGE_SIZE` bytes, zeros past
its end. -/
def window (l : List UInt8) (pos : Nat) : List UInt8 :=
  (l.drop pos).take PAGE_SIZE ++ List.replicate (PAGE_SIZE - ((l.drop pos).take PAGE_SIZE).length) 0

theorem getElem?_window (l : List UInt8) (pos k : Nat) :
    (window l pos)[k]? = if k < PAGE_SIZE then some (l.getD (pos + k) 0) else none := by
  unfold window
  rw [List.getD_eq_getElem?_getD, List.getElem?_append]
  simp only [List.length_take, List.length_drop]
  split_ifs with h₁ h₂ h₂
  · rw [List.getElem?_take, if_pos h₂, List.getElem?_drop, List.getElem?_eq_getElem (by omega)]
    rfl
  · omega
  · rw [List.getElem?_replicate, if_pos (by omega), List.getElem?_eq_none (l := l) (by omega)]
    rfl
  · rw [List.getElem?_replicate, if_neg (by omega)]

/-- Two windows agree where the byte arrays agree on the window's bytes, zeros past their ends. -/
theorem window_congr {l l' : List UInt8} {pos : Nat}
    (h : ∀ k < PAGE_SIZE, l'.getD (pos + k) 0 = l.getD (pos + k) 0) :
    window l' pos = window l pos :=
  List.ext_getElem? fun k => by
    rw [getElem?_window, getElem?_window]
    split_ifs with hk
    · rw [h k hk]
    · rfl

/-- Zero padding reads as the zeros past the end. -/
theorem getD_append_replicate_zero (l : List UInt8) (n i : Nat) :
    ((l ++ List.replicate n 0)[i]?).getD 0 = (l[i]?).getD 0 := by
  rw [List.getElem?_append]
  split_ifs with h
  · rfl
  · rw [List.getElem?_replicate, List.getElem?_eq_none (l := l) (by omega)]
    split_ifs <;> rfl

/-- The bytes of a write: the data over its range, the old bytes elsewhere, zeros past the end. -/
theorem getD_writeAt (l : List UInt8) (pos : Nat) (data : List UInt8) (i : Nat) :
    (writeAt l pos data).getD i 0 =
      if pos ≤ i ∧ i < pos + data.length then data.getD (i - pos) 0 else l.getD i 0 := by
  have hpad : ((l ++ List.replicate (pos - l.length) 0).take pos).length = pos := by
    simp only [List.length_take, List.length_append, List.length_replicate]; omega
  unfold writeAt
  simp only [List.getD_eq_getElem?_getD, List.append_assoc]
  split_ifs with h
  · rw [List.getElem?_append_right (by omega), hpad, List.getElem?_append_left (by omega)]
  · rcases not_and_or.mp h with h | h
    · rw [List.getElem?_append_left (by omega), List.getElem?_take, if_pos (by omega),
        getD_append_replicate_zero]
    · rw [List.getElem?_append_right (by omega), hpad, List.getElem?_append_right (by omega),
        List.getElem?_drop, show pos + data.length + (i - pos - data.length) = i by omega,
        getD_append_replicate_zero]

/-- A page written at `pos` reads back from `pos`. -/
theorem window_writeAt_self (l : List UInt8) (pos : Nat) {buf : List UInt8}
    (hb : buf.length = PAGE_SIZE) : window (writeAt l pos buf) pos = buf :=
  List.ext_getElem? fun k => by
    rw [getElem?_window, getD_writeAt]
    split_ifs with hk h
    · rw [Nat.add_sub_cancel_left, List.getD_eq_getElem?_getD, List.getElem?_eq_getElem (by omega)]
      rfl
    · omega
    · rw [List.getElem?_eq_none (by omega)]

/-- A page written at `pos` leaves every window it does not overlap. -/
theorem window_writeAt_of_disjoint (l : List UInt8) {pos q : Nat} {buf : List UInt8}
    (hb : buf.length = PAGE_SIZE) (hd : pos + PAGE_SIZE ≤ q ∨ q + PAGE_SIZE ≤ pos) :
    window (writeAt l pos buf) q = window l q :=
  window_congr fun k hk => by rw [getD_writeAt, if_neg (by omega)]

namespace SingleFile

/-! ## The store -/

/-- What `read_page(o)` returns, the cursor aside. -/
def pageAt (sf : SingleFile) (o : Nat) : Option (List UInt8) :=
  match sf.readPage o with
  | .ok (_, r) => r
  | .error _ => none

theorem pageAt_eq (sf : SingleFile) (o : Nat) :
    sf.pageAt o =
      if o < sf.base ∨ sf.base + sf.chunkSize ≤ o then none
      else if sf.len ≤ o - sf.base then none else some (window sf.file.bytes (o - sf.base)) := by
  unfold pageAt readPage
  dsimp only
  split_ifs <;> rfl

theorem readPage_of_pageAt {sf : SingleFile} {o : Nat} {b : List UInt8}
    (h : sf.pageAt o = some b) : ∃ sf', sf.readPage o = .ok (sf', some b) := by
  unfold pageAt at h
  split at h
  · next sf' r hr => exact ⟨sf', by rw [hr, h]⟩
  · cases h

/-- A call of a page store: a `read_page`, or an `update_page` at a page boundary of the chunk. -/
def storeCall (base : Nat) : Call → Bool
  | .readPage _ => true
  | .updatePage page => (page.pref - base) % PAGE_SIZE = 0
  | _ => false

/-- The buffer a call writes at `o`. -/
def Call.updateAt (o : Nat) : Call → Option (List UInt8)
  | .updatePage page => if page.pref = o then some page.buf else none
  | _ => none

/-- The buffer of the last `update_page` at `o` among the calls. -/
def lastUpdate (o : Nat) : List Call → Option (List UInt8)
  | [] => none
  | c :: cs => (lastUpdate o cs).or (c.updateAt o)

/-- A `read_page` changes nothing but the cursor. -/
theorem exec_readPage (sf : SingleFile) (o' : Nat) :
    ∃ cursor, sf.exec (.readPage o') = { sf with file := ⟨sf.file.bytes, cursor⟩ } := by
  rw [exec, readPage]
  dsimp only
  split_ifs
  exacts [⟨_, rfl⟩, ⟨_, rfl⟩, ⟨_, rfl⟩]

/-- An `update_page` inside the chunk. -/
theorem exec_updatePage {sf : SingleFile} {page : FilePage} (hb : sf.base ≤ page.pref)
    (hc : page.pref < sf.base + sf.chunkSize) :
    sf.exec (.updatePage page) =
      { sf with file := ⟨writeAt sf.file.bytes (page.pref - sf.base) page.buf,
                          page.pref - sf.base + page.buf.length⟩,
                len := max sf.len (page.pref - sf.base + PAGE_SIZE) } := by
  rw [exec, updatePage, if_neg (by omega)]
  rfl

/-- An `update_page` outside the chunk returns `Err` and changes nothing. -/
theorem exec_updatePage_of_not {sf : SingleFile} {page : FilePage}
    (h : ¬(sf.base ≤ page.pref ∧ page.pref < sf.base + sf.chunkSize)) :
    sf.exec (.updatePage page) = sf := by
  rw [exec, updatePage, if_pos (by omega)]

/-- Every call keeps `base` and the chunk size. -/
theorem base_exec (sf : SingleFile) (c : Call) :
    (sf.exec c).base = sf.base ∧ (sf.exec c).chunkSize = sf.chunkSize := by
  cases c with
  | readPage o' =>
    obtain ⟨_, he⟩ := exec_readPage sf o'
    rw [he]; exact ⟨rfl, rfl⟩
  | updatePage page =>
    by_cases hin : sf.base ≤ page.pref ∧ page.pref < sf.base + sf.chunkSize
    · rw [exec_updatePage hin.1 hin.2]; exact ⟨rfl, rfl⟩
    · rw [exec_updatePage_of_not hin]; exact ⟨rfl, rfl⟩
  | appendPage _ | truncate _ => exact ⟨rfl, rfl⟩

/-- Distinct page boundaries are a page apart. -/
theorem disjoint_of_aligned {p q : Nat} (hp : p % PAGE_SIZE = 0) (hq : q % PAGE_SIZE = 0)
    (hne : p ≠ q) : p + PAGE_SIZE ≤ q ∨ q + PAGE_SIZE ≤ p := by
  unfold PAGE_SIZE at *; omega

variable {sf : SingleFile} {o : Nat}

/-- One call of a page store keeps what `read_page(o)` returns, or makes it the buffer the call
wrote at `o`. -/
theorem pageAt_exec {c : Call} (hc : storeCall sf.base c) (ho : (o - sf.base) % PAGE_SIZE = 0)
    (hb : sf.base ≤ o) (hch : o < sf.base + sf.chunkSize) {b : List UInt8}
    (h : (c.updateAt o).or (sf.pageAt o) = some b) : (sf.exec c).pageAt o = some b := by
  cases c with
  | readPage o' =>
    obtain ⟨cursor, he⟩ := exec_readPage sf o'
    rw [he, ← h, pageAt_eq, pageAt_eq]
    rfl
  | updatePage page =>
    have hpage := page.buf_length
    have hps : 0 < PAGE_SIZE := by decide
    simp only [storeCall, decide_eq_true_eq] at hc
    by_cases hin : sf.base ≤ page.pref ∧ page.pref < sf.base + sf.chunkSize
    · obtain ⟨hin₁, hin₂⟩ := hin
      simp only [Call.updateAt] at h
      rw [exec_updatePage hin₁ hin₂, pageAt_eq,
        if_neg (show ¬(o < sf.base ∨ sf.base + sf.chunkSize ≤ o) by omega)]
      split_ifs at h with hpo
      · cases h
        subst hpo
        rw [if_neg (show ¬max sf.len (page.pref - sf.base + PAGE_SIZE) ≤ page.pref - sf.base by
          omega), window_writeAt_self _ _ hpage]
      · rw [Option.none_or, pageAt_eq] at h
        split_ifs at h
        cases h
        rw [if_neg (show ¬max sf.len (page.pref - sf.base + PAGE_SIZE) ≤ o - sf.base by omega),
          window_writeAt_of_disjoint _ hpage (disjoint_of_aligned hc ho (by omega))]
    · have hne : page.pref ≠ o := fun hpo => hin ⟨hpo ▸ hb, hpo ▸ hch⟩
      simp only [Call.updateAt, if_neg hne, Option.none_or] at h
      rw [exec_updatePage_of_not hin, h]
  | appendPage page => cases hc
  | truncate newLen => cases hc

/-- Any sequence of page-store calls keeps what `read_page(o)` returns, or makes it the last
buffer written at `o`. -/
theorem pageAt_execAll (calls : List Call) :
    ∀ {sf : SingleFile}, (∀ c ∈ calls, storeCall sf.base c) → (o - sf.base) % PAGE_SIZE = 0 →
      sf.base ≤ o → o < sf.base + sf.chunkSize → ∀ {b : List UInt8},
      (lastUpdate o calls).or (sf.pageAt o) = some b → (sf.execAll calls).pageAt o = some b := by
  induction calls with
  | nil => intro sf _ _ _ _ b h; exact h
  | cons c cs ih =>
    intro sf hc ho hb hch b h
    obtain ⟨hbase, hchunk⟩ := base_exec sf c
    rw [lastUpdate, Option.or_assoc] at h
    refine ih (fun c' h' => hbase ▸ hc c' (List.mem_cons_of_mem c h')) (hbase ▸ ho) (hbase ▸ hb)
      (by rw [hbase, hchunk]; exact hch) ?_
    cases hl : lastUpdate o cs with
    | some b' =>
      rw [hl, Option.or_some] at h
      rw [Option.or_some, h]
    | none =>
      rw [hl, Option.none_or] at h
      rw [Option.none_or]
      exact pageAt_exec (hc c (List.mem_cons_self c cs)) ho hb hch h

/-- `SingleFile` is a page store.  After any sequence of `read_page` and `update_page` calls, every
`update_page` at a page boundary of the chunk, `read_page(o)` at a page boundary `o` of the chunk
returns the buffer of the last `update_page` at `o`, whatever the cursor; and where no call wrote
at `o`, the page it returned before the calls, if it returned one. -/
theorem readPage_execAll_store {calls : List Call} (hc : ∀ c ∈ calls, storeCall sf.base c)
    (ho : (o - sf.base) % PAGE_SIZE = 0) (hb : sf.base ≤ o) (hch : o < sf.base + sf.chunkSize)
    {buf : List UInt8} (h : (lastUpdate o calls).or (sf.pageAt o) = some buf) :
    ∃ sf', (sf.execAll calls).readPage o = .ok (sf', some buf) :=
  readPage_of_pageAt (pageAt_execAll calls hc ho hb hch h)

/-- `readPage_execAll_store` on one run: an `update_page` at `0` of an empty file, of a page whose
payload is sevens and whose trailer is its position, then a `read_page(0)`. -/
theorem readPage_execAll_store_update_then_read :
    (∀ c ∈ [Call.updatePage (FilePage.filled 0 7),
        .readPage 0], storeCall (new ⟨[], 0⟩).base c) ∧
      (0 - (new ⟨[], 0⟩).base) % PAGE_SIZE = 0 ∧ (new ⟨[], 0⟩).base ≤ 0 ∧
      0 < (new ⟨[], 0⟩).base + (new ⟨[], 0⟩).chunkSize ∧
      (lastUpdate 0 [Call.updatePage (FilePage.filled 0 7),
        .readPage 0]).or ((new ⟨[], 0⟩).pageAt 0) = some (FilePage.filled 0 7).buf ∧
      ∃ sf', ((new ⟨[], 0⟩).execAll
        [Call.updatePage (FilePage.filled 0 7),
          .readPage 0]).readPage 0 = .ok (sf', some (FilePage.filled 0 7).buf) := by
  have hc : ∀ c ∈ [Call.updatePage (FilePage.filled 0 7),
      .readPage 0], storeCall (new ⟨[], 0⟩).base c := by decide
  have hl : (lastUpdate 0 [Call.updatePage (FilePage.filled 0 7), .readPage 0]).or ((new ⟨[], 0⟩).pageAt 0) =
        some (FilePage.filled 0 7).buf := rfl
  exact ⟨hc, by decide, le_rfl, by decide, hl,
    readPage_execAll_store hc (by decide) le_rfl (by decide) hl⟩

/-! ## The page store with truncation

`truncate` cuts the byte array, or extends it with zeros, so a page it cuts reads as zeros when a
later `update_page` makes the file reach past it again.  `Store` is the page store `SingleFile` is
for, with that truncation; `Holds` relates a `SingleFile` to the store it holds, and every call of
the store keeps it (`Holds.exec`). -/

/-- Past the end of the byte array a window is all zeros. -/
theorem window_of_length_le {l : List UInt8} {p : Nat} (h : l.length ≤ p) :
    window l p = List.replicate PAGE_SIZE 0 := by
  rw [window, List.drop_eq_nil_of_le h, List.take_nil, List.length_nil, Nat.sub_zero,
    List.nil_append]

/-- `set_len(n)` keeps the bytes below `n`, and reads as zeros from `n` on. -/
theorem getD_setLen (f : OsFile) (n i : Nat) :
    (f.setLen n).bytes.getD i 0 = if i < n then f.bytes.getD i 0 else 0 := by
  simp only [OsFile.setLen, List.getD_eq_getElem?_getD, List.getElem?_take]
  split_ifs
  · exact getD_append_replicate_zero _ _ _
  · rfl

/-- A window below the new length reads as before a `set_len`. -/
theorem window_setLen {f : OsFile} {n p : Nat} (h : p + PAGE_SIZE ≤ n) :
    window (f.setLen n).bytes p = window f.bytes p :=
  window_congr fun k hk => by rw [getD_setLen, if_pos (by omega)]

/-- The page store of a chunk: its length, and the page at each position of the chunk, counted
from `base`.  No page at or past the length holds anything but zeros. -/
structure Store where
  len : Nat
  page : Nat → List UInt8
  zeros_past : ∀ p, len ≤ p → page p = List.replicate PAGE_SIZE 0

namespace Store

/-- The page at `p` is now `buf`, and the store reaches past it. -/
def update (s : Store) (p : Nat) (buf : List UInt8) : Store where
  len := max s.len (p + PAGE_SIZE)
  page q := if q = p then buf else s.page q
  zeros_past q hq := by
    have hp : p + PAGE_SIZE ≤ q := (Nat.max_le.mp hq).2
    show (if q = p then buf else s.page q) = _
    rw [if_neg (by unfold PAGE_SIZE at hp; omega)]
    exact s.zeros_past q (Nat.max_le.mp hq).1

/-- The store cut to `n`, or extended with zero pages to `n`. -/
def truncate (s : Store) (n : Nat) : Store where
  len := n
  page q := if n ≤ q then List.replicate PAGE_SIZE 0 else s.page q
  zeros_past _ hq := if_pos hq

/-- The page at `p`: `none` at or past the length. -/
def read (s : Store) (p : Nat) : Option (List UInt8) := if s.len ≤ p then none else some (s.page p)

/-- The store of a byte array, page by page. -/
def ofBytes (l : List UInt8) : Store := ⟨l.length, window l, fun _ => window_of_length_le⟩

section Chunk

variable (base chunkSize : Nat)

/-- What a call does to the store of the chunk `[base, base + chunkSize)`: an `update_page` outside
the chunk fails and changes nothing.  `append_page` is not a call of the store. -/
def apply (s : Store) : Call → Store
  | .updatePage page =>
    if page.pref < base ∨ base + chunkSize ≤ page.pref then s else s.update (page.pref - base) page.buf
  | .truncate newLen => s.truncate newLen
  | .readPage _ | .appendPage _ => s

/-- The store after a sequence of calls. -/
def applyAll (s : Store) (calls : List Call) : Store := calls.foldl (apply base chunkSize) s

/-- What `read_page(o)` of the chunk returns: an error outside it. -/
def readPage (s : Store) (o : Nat) : Except HammersbaldError (Option (List UInt8)) :=
  if o < base ∨ base + chunkSize ≤ o then .error (.corrupted "read from wrong file")
  else .ok (s.read (o - base))

/-- A page that holds zeros keeps them through every call that does not write at it. -/
theorem page_apply_zeros {s : Store} {p : Nat} (hp : s.page p = List.replicate PAGE_SIZE 0)
    {c : Call} (hc : c.updateAt (base + p) = none) :
    (s.apply base chunkSize c).page p = List.replicate PAGE_SIZE 0 := by
  cases c with
  | updatePage page =>
    simp only [Call.updateAt, ite_eq_right_iff, reduceCtorEq, imp_false] at hc
    simp only [apply]
    split_ifs with hin
    · exact hp
    · simp only [update]
      rw [if_neg (by omega)]
      exact hp
  | truncate n =>
    simp only [apply, truncate]
    split_ifs
    exacts [rfl, hp]
  | readPage _ | appendPage _ => exact hp

/-- ... and through every sequence of them. -/
theorem page_applyAll_zeros {p : Nat} :
    ∀ {s : Store} {calls : List Call}, s.page p = List.replicate PAGE_SIZE 0 →
      lastUpdate (base + p) calls = none →
      (s.applyAll base chunkSize calls).page p = List.replicate PAGE_SIZE 0
  | _, [], hp, _ => hp
  | s, c :: cs, hp, hl => by
    rw [lastUpdate, Option.or_eq_none] at hl
    exact page_applyAll_zeros (s := s.apply base chunkSize c) (page_apply_zeros base chunkSize hp hl.2)
      hl.1

end Chunk

end Store

/-- A call of the page store with truncation: a `read_page`, an `update_page` at a page boundary
of the chunk, or a `truncate` to a page boundary. -/
def pageCall (base : Nat) : Call → Bool
  | .readPage _ => true
  | .updatePage page => (page.pref - base) % PAGE_SIZE = 0
  | .truncate newLen => newLen % PAGE_SIZE = 0
  | .appendPage _ => false

/-- `sf` holds the store `s`: `len` is the length of the byte array and of the store, and at each
page boundary the bytes of the file are the store's page. -/
structure Holds (sf : SingleFile) (s : Store) : Prop where
  lenOk : LenOk sf
  len_eq : sf.len = s.len
  page_eq : ∀ p, p % PAGE_SIZE = 0 → window sf.file.bytes p = s.page p

theorem holds_ofBytes (hl : LenOk sf) : Holds sf (Store.ofBytes sf.file.bytes) :=
  ⟨hl, hl, fun _ _ => rfl⟩

/-- One call of the store keeps `Holds`. -/
theorem Holds.exec {s : Store} (h : Holds sf s) {c : Call} (hc : pageCall sf.base c) :
    Holds (sf.exec c) (s.apply sf.base sf.chunkSize c) := by
  cases c with
  | readPage o' =>
    obtain ⟨cursor, he⟩ := exec_readPage sf o'
    rw [he]
    exact ⟨h.lenOk, h.len_eq, h.page_eq⟩
  | updatePage page =>
    have hl : sf.len = sf.file.bytes.length := h.lenOk
    simp only [pageCall, decide_eq_true_eq] at hc
    by_cases hin : sf.base ≤ page.pref ∧ page.pref < sf.base + sf.chunkSize
    · rw [exec_updatePage hin.1 hin.2, Store.apply, if_neg (by omega)]
      refine ⟨?_, by rw [h.len_eq]; rfl, fun q hq => ?_⟩
      · show _ = (writeAt _ _ _).length
        rw [length_writeAt, page.buf_length, hl]
      · simp only [Store.update]
        split_ifs with hqp
        · subst hqp
          exact window_writeAt_self _ _ page.buf_length
        · rw [window_writeAt_of_disjoint _ page.buf_length (disjoint_of_aligned hc hq (Ne.symm hqp))]
          exact h.page_eq q hq
    · rw [exec_updatePage_of_not hin, Store.apply, if_pos (by omega)]
      exact h
  | truncate n =>
    simp only [pageCall, decide_eq_true_eq] at hc
    refine ⟨(OsFile.length_setLen _ _).symm, rfl, fun q hq => ?_⟩
    show window (sf.file.setLen n).bytes q = if n ≤ q then _ else _
    split_ifs with hnq
    · exact window_of_length_le (by rw [OsFile.length_setLen]; exact hnq)
    · rw [window_setLen (by unfold PAGE_SIZE at hc hq ⊢; omega)]
      exact h.page_eq q hq
  | appendPage _ => cases hc

/-- Every call keeps `base` and the chunk size. -/
theorem base_execAll : ∀ (calls : List Call) (sf : SingleFile),
    (sf.execAll calls).base = sf.base ∧ (sf.execAll calls).chunkSize = sf.chunkSize
  | [], _ => ⟨rfl, rfl⟩
  | c :: cs, sf => by
    obtain ⟨hb, hc⟩ := base_execAll cs (sf.exec c)
    exact ⟨hb.trans (base_exec sf c).1, hc.trans (base_exec sf c).2⟩

/-- Any sequence of calls of the store keeps `Holds`. -/
theorem Holds.execAll : ∀ {calls : List Call} {sf : SingleFile} {s : Store}, Holds sf s →
    (∀ c ∈ calls, pageCall sf.base c) →
      Holds (sf.execAll calls) (s.applyAll sf.base sf.chunkSize calls)
  | [], _, _, h, _ => h
  | c :: cs, sf, _, h, hc => by
    obtain ⟨hbase, hchunk⟩ := base_exec sf c
    have h' := (h.exec (hc c (List.mem_cons_self c cs))).execAll
      (fun c' h' => hbase ▸ hc c' (List.mem_cons_of_mem c h'))
    rwa [hbase, hchunk] at h'

/-- A `SingleFile` that holds a store answers `read_page` at each page boundary as the store. -/
theorem Holds.readPage {s : Store} (h : Holds sf s) (ho : (o - sf.base) % PAGE_SIZE = 0) :
    (sf.readPage o).map Prod.snd = s.readPage sf.base sf.chunkSize o := by
  unfold SingleFile.readPage Store.readPage Store.read
  dsimp only
  rw [← h.len_eq]
  split_ifs
  · rfl
  · rfl
  · exact congrArg (fun b => Except.ok (some b)) (h.page_eq _ ho)

/-- `SingleFile` implements the page store with truncation.  Take a `SingleFile` whose `len` is
the length of its file, as `new` and `new_chunk` leave it, and run any sequence of `read_page`
calls, `update_page` calls at page boundaries of the chunk and `truncate` calls to page
boundaries.  Then `len` returns the length of the store the file started as after the same calls,
and `read_page(o)` at every page boundary returns what that store returns: an error outside the
chunk, `None` at or past the length, otherwise the page, whatever the cursor. -/
theorem readPage_execAll_holds (hl : LenOk sf) {calls : List Call}
    (hc : ∀ c ∈ calls, pageCall sf.base c) (ho : (o - sf.base) % PAGE_SIZE = 0) :
    (sf.execAll calls).len = ((Store.ofBytes sf.file.bytes).applyAll sf.base sf.chunkSize calls).len ∧
      ((sf.execAll calls).readPage o).map Prod.snd =
        ((Store.ofBytes sf.file.bytes).applyAll sf.base sf.chunkSize calls).readPage sf.base
          sf.chunkSize o := by
  have h := (holds_ofBytes hl).execAll hc
  obtain ⟨hbase, hchunk⟩ := base_execAll calls sf
  refine ⟨h.len_eq, ?_⟩
  rw [h.readPage (hbase ▸ ho), hbase, hchunk]


/-- An `update_page` at `0` of a payload of sevens, a `truncate` to `0`, and an `update_page` at
`PAGE_SIZE` of a payload of eights; each page carries its position in its trailer. -/
def truncateRun : List Call :=
  [.updatePage (FilePage.filled 0 7), .truncate 0,
    .updatePage (FilePage.filled PAGE_SIZE 8)]

/-- `readPage_execAll_holds` on `truncateRun` from an empty file, read at `0`. -/
theorem readPage_execAll_holds_truncateRun :
    LenOk (new ⟨[], 0⟩) ∧ (∀ c ∈ truncateRun, pageCall (new ⟨[], 0⟩).base c) ∧
      (0 - (new ⟨[], 0⟩).base) % PAGE_SIZE = 0 ∧
      ((new ⟨[], 0⟩).execAll truncateRun).len =
        ((Store.ofBytes (new ⟨[], 0⟩).file.bytes).applyAll (new ⟨[], 0⟩).base
          (new ⟨[], 0⟩).chunkSize truncateRun).len ∧
      (((new ⟨[], 0⟩).execAll truncateRun).readPage 0).map Prod.snd =
        ((Store.ofBytes (new ⟨[], 0⟩).file.bytes).applyAll (new ⟨[], 0⟩).base
          (new ⟨[], 0⟩).chunkSize truncateRun).readPage (new ⟨[], 0⟩).base
            (new ⟨[], 0⟩).chunkSize 0 := by
  have hc : ∀ c ∈ truncateRun, pageCall (new ⟨[], 0⟩).base c := by decide
  exact ⟨lenOk_new _, hc, rfl, readPage_execAll_holds (lenOk_new _) hc rfl⟩

/-- A page that `truncate` cuts never comes back.  Take a `SingleFile` whose `len` is the length of
its file and run calls of the page store: some calls, a `truncate` to a length at or below the
page boundary `o` of the chunk, and further calls none of which is an `update_page` at `o`.  Then
`read_page(o)` returns `None`, or a page of zeros once the file reaches past `o` again, never the
bytes the page held before. -/
theorem readPage_truncated (hl : LenOk sf) {pre post : List Call} {n : Nat}
    (hc : ∀ c ∈ pre ++ .truncate n :: post, pageCall sf.base c)
    (ho : (o - sf.base) % PAGE_SIZE = 0) (hb : sf.base ≤ o) (hch : o < sf.base + sf.chunkSize)
    (hn : n ≤ o - sf.base) (hpost : lastUpdate o post = none) :
    ∃ sf' r, (sf.execAll (pre ++ .truncate n :: post)).readPage o = .ok (sf', r) ∧
      (r = none ∨ r = some (List.replicate PAGE_SIZE 0)) := by
  have hread := ((holds_ofBytes hl).execAll hc).readPage (o := o)
  obtain ⟨hbase, hchunk⟩ := base_execAll (pre ++ .truncate n :: post) sf
  rw [hbase, hchunk] at hread
  have hzero : ((Store.ofBytes sf.file.bytes).applyAll sf.base sf.chunkSize
      (pre ++ .truncate n :: post)).page (o - sf.base) = List.replicate PAGE_SIZE 0 := by
    rw [Store.applyAll, List.foldl_append, List.foldl_cons]
    refine Store.page_applyAll_zeros _ _ (if_pos hn) ?_
    rwa [Nat.add_sub_cancel' hb]
  rcases hx : (sf.execAll (pre ++ .truncate n :: post)).readPage o with _ | ⟨sf', r⟩
  · rw [hx, Store.readPage, if_neg (by omega)] at hread
    cases hread ho
  · rw [hx, Store.readPage, if_neg (by omega), Store.read] at hread
    refine ⟨sf', r, rfl, ?_⟩
    have hr : r = _ := Except.ok.inj (hread ho)
    split_ifs at hr
    exacts [.inl hr, .inr (hr.trans (congrArg some hzero))]

/-- `readPage_truncated` on `truncateRun`, read at `0`: the page of sevens is gone. -/
theorem readPage_truncated_truncateRun :
    LenOk (new ⟨[], 0⟩) ∧
      (∀ c ∈ [Call.updatePage (FilePage.filled 0 7)] ++
        .truncate 0 :: [.updatePage (FilePage.filled PAGE_SIZE 8)],
        pageCall (new ⟨[], 0⟩).base c) ∧
      (0 - (new ⟨[], 0⟩).base) % PAGE_SIZE = 0 ∧ (new ⟨[], 0⟩).base ≤ 0 ∧
      0 < (new ⟨[], 0⟩).base + (new ⟨[], 0⟩).chunkSize ∧ 0 ≤ 0 - (new ⟨[], 0⟩).base ∧
      lastUpdate 0 [.updatePage (FilePage.filled PAGE_SIZE 8)] =
        none ∧
      ∃ sf' r, ((new ⟨[], 0⟩).execAll
        ([Call.updatePage (FilePage.filled 0 7)] ++
          .truncate 0 :: [.updatePage (FilePage.filled PAGE_SIZE 8)])).readPage 0 = .ok (sf', r) ∧
        (r = none ∨ r = some (List.replicate PAGE_SIZE 0)) := by
  have hc : ∀ c ∈ [Call.updatePage (FilePage.filled 0 7)] ++
      .truncate 0 :: [.updatePage (FilePage.filled PAGE_SIZE 8)],
      pageCall (new ⟨[], 0⟩).base c := by decide
  have hl : lastUpdate 0
      [.updatePage (FilePage.filled PAGE_SIZE 8)] = none := rfl
  exact ⟨lenOk_new _, hc, rfl, le_rfl, by decide, le_rfl, hl,
    readPage_truncated (lenOk_new _) hc rfl le_rfl (by decide) le_rfl hl⟩

end SingleFile

end Hammersbald
