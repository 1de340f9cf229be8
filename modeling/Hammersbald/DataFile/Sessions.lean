import Hammersbald.DataFile.PageCrossing

/-!
# Flushes and sessions

`DataFile::flush` hands the page in hand to the file and keeps it in hand. `append_pos` does not
move. The page goes to the file again, at the same offset, when `append_slice` hands it on full or
the next `flush` runs. The file keeps each page at its own offset, and the page written last is
the one read, so the copy a flush left is overwritten.

* `appendSliceLoop_onto`, `appendSlice_onto`, `append_onto`: once the writer has started, it never
  reads the pages of its file. Over more pages it hands on the same ones.
* `appendSliceLoop_hands_or_keeps`: `append_slice` either hands on the page it started in, or
  keeps that page in hand with `append_pos` still inside its payload.
* `Alike a b`: `a` has seen the calls `b` has seen, and flushes besides. Both have the same
  `append_pos` and page in hand. Their files read alike, except at the offset of a page in hand
  that holds bytes.
* `runCalls_flushes_unseen`: run any sequence of `append` and `flush` calls and end with one more
  `flush`. The file then reads as it would had only the appends run, at every offset. The appends
  return the same offsets, or fail with the same error, and the writer is left in the same state.

`DataFile::new` over a file that holds pages starts at the file's length, in a fresh page, and
writes no magic bytes. The zero bytes the last session's `flush` left in its page are padding.

* `sessions`: sessions one after another on one file, each opening it with `DataFile::new`,
  appending entries and ending with `flush`.
* `session_readsBack`: one session on pages that read back some entries adds its own after them.
* `sessions_roundTrip`: opened once more, the file yields every entry of every session, in order,
  and then only `None`, when no length field crosses a page boundary (`sessionsFit`).
-/

namespace Hammersbald.DataFile

/-! ## The writer over more pages -/

/-- The writer `df` over a file that held the pages `s` before `df.stored`. -/
def onto (s : List Page) (df : DataFile) : DataFile := ⟨df.appendPos, df.page, s ++ df.stored⟩

/-- The writer `df` over an empty file. -/
def bare (df : DataFile) : DataFile := ⟨df.appendPos, df.page, []⟩

@[simp] theorem onto_appendPos (s : List Page) (df : DataFile) : (df.onto s).appendPos = df.appendPos :=
  rfl

@[simp] theorem onto_page (s : List Page) (df : DataFile) : (df.onto s).page = df.page := rfl

theorem bare_onto (df : DataFile) : df.bare.onto df.stored = df := by
  cases df; simp [bare, onto]

/-- The loop of `append_slice` never reads the file's pages. -/
theorem appendSliceLoop_onto (s : List Page) (df : DataFile) (pos wrote : Nat) (rest : List UInt8) :
    appendSliceLoop (df.onto s) pos wrote rest =
      (appendSliceLoop df pos wrote rest).map (Prod.map (onto s) id) := by
  induction df, pos, wrote, rest using appendSliceLoop.induct with
  | case1 df pos wrote => simp only [appendSliceLoop_nil]; rfl
  | case2 df wrote rest hr e hn =>
    have hn' : Offset.nextPage (df.onto s).appendPos = .error e := hn
    conv_lhs => rw [appendSliceLoop, if_neg hr, if_pos rfl, hn']
    conv_rhs => rw [appendSliceLoop, if_neg hr, if_pos rfl, hn]
    rfl
  | case3 df wrote rest hr next hn ih =>
    rw [appendSliceLoop_cross (df.onto s) wrote hr hn, appendSliceLoop_cross df wrote hr hn, ← ih]
    simp only [onto, List.append_assoc]
  | case4 df pos wrote rest hr hmax hlt =>
    conv_lhs => rw [appendSliceLoop, if_neg hr, if_neg hmax, if_pos hlt]
    conv_rhs => rw [appendSliceLoop, if_neg hr, if_neg hmax, if_pos hlt]
    rfl
  | case5 df pos wrote rest hr hmax hlt have_ ih =>
    have hp : pos < PAYLOAD_MAX := by omega
    rw [appendSliceLoop_write (df.onto s) wrote hr hp, appendSliceLoop_write df wrote hr hp]
    exact ih

theorem appendSlice_onto (s : List Page) (df : DataFile) (slice : List UInt8) :
    (df.onto s).appendSlice slice = (df.appendSlice slice).map (onto s) := by
  simp only [appendSlice, bind, Except.bind, onto_appendPos, appendSliceLoop_onto]
  rcases appendSliceLoop df (PRef.inPagePos df.appendPos) 0 slice with _ | ⟨d, w⟩
  · rfl
  · simp only [Except.map, Prod.map, onto_appendPos, id]
    cases Offset.new (d.appendPos + w) <;> rfl

/-- Once the writer has started, `append` never reads the file's pages. -/
theorem append_onto (s : List Page) {df : DataFile} (h : df.appendPos ≠ 0) (e : DataEntry) :
    (df.onto s).append e = (df.append e).map (Prod.map (onto s) id) := by
  simp only [append, start_of_appendPos h, @start_of_appendPos (df.onto s) h, bind,
    Except.bind, appendSlice_onto, onto_appendPos]
  rcases df.appendSlice [e.dataType.toU8] with _ | d₁
  · rfl
  simp only [Except.map]
  rcases U24.new e.content.length with _ | n
  · rfl
  simp only [appendSlice_onto]
  rcases d₁.appendSlice (U24.serialize n) with _ | d₂
  · rfl
  simp only [Except.map, appendSlice_onto]
  rcases d₂.appendSlice e.content with _ | d₃ <;> rfl

/-! ## What a file reads -/

theorem readPage_append (s t : List Page) (o : Nat) :
    readPage (s ++ t) o = (readPage t o).or (readPage s o) := by
  simp only [readPage, List.reverse_append, List.find?_append]

theorem readPage_append_singleton (s : List Page) (p : Page) (o : Nat) :
    readPage (s ++ [p]) o = if p.offset = o then some p else readPage s o := by
  rw [readPage_append]
  by_cases h : p.offset = o <;> simp [readPage, h]

theorem isSome_readPage_append {s : List Page} {o : Nat} (h : (readPage s o).isSome) (t : List Page) :
    (readPage (s ++ t) o).isSome := by
  rw [readPage_append, Option.isSome_or, h, Bool.or_true]

/-! ## Handing on the page in hand -/

/-- The page in hand is at offset `o` and holds bytes, so `flush` hands it to the file. -/
def InHand (o : Nat) (df : DataFile) : Prop := df.page.offset = o ∧ 0 < PRef.inPagePos df.appendPos

/-- A run of `append_slice`'s loop either hands on the page it started in, or keeps that page in
hand, at the same `append_pos`, having written only bytes that fit in its payload after `pos`. -/
theorem appendSliceLoop_hands_or_keeps {df d : DataFile} {pos wrote w : Nat} {rest : List UInt8}
    (h : appendSliceLoop df pos wrote rest = .ok (d, w)) :
    ∃ t, d.stored = df.stored ++ t ∧ ((readPage t df.page.offset).isSome ∨
      t = [] ∧ d.page.offset = df.page.offset ∧ d.appendPos = df.appendPos ∧
        (w = wrote ∨ pos + (w - wrote) ≤ PAYLOAD_MAX)) := by
  induction df, pos, wrote, rest using appendSliceLoop.induct generalizing d w with
  | case1 df pos wrote =>
    rw [appendSliceLoop_nil] at h
    cases h
    exact ⟨[], (List.append_nil _).symm, .inr ⟨rfl, rfl, rfl, .inl rfl⟩⟩
  | case2 df wrote rest hr e hn =>
    rw [appendSliceLoop, if_neg hr, if_pos rfl, hn] at h
    cases h
  | case3 df wrote rest hr next hn ih =>
    rw [appendSliceLoop_cross df wrote hr hn] at h
    obtain ⟨t, ht, -⟩ := ih h
    refine ⟨df.page :: t, by rw [ht, List.append_assoc, List.singleton_append], .inl ?_⟩
    rw [← List.singleton_append, readPage_append, Option.isSome_or]
    simp [readPage]
  | case4 df pos wrote rest hr hmax hlt =>
    rw [appendSliceLoop, if_neg hr, if_neg hmax, if_pos hlt] at h
    cases h
  | case5 df pos wrote rest hr hmax hlt have_ =>
    rename_i ih
    rw [appendSliceLoop_write df wrote hr (by omega)] at h
    obtain ⟨t, ht, hk⟩ := ih h
    refine ⟨t, ht, hk.imp id fun ⟨h₁, h₂, h₃, h₄⟩ => ⟨h₁, h₂, h₃, .inr ?_⟩⟩
    have : min rest.length (PAYLOAD_MAX - pos) ≤ PAYLOAD_MAX - pos := Nat.min_le_right _ _
    omega

/-- `append_slice` only adds pages to the file. -/
theorem appendSlice_stored {df d : DataFile} {slice : List UInt8} (h : df.appendSlice slice = .ok d) :
    ∃ t, d.stored = df.stored ++ t := by
  rw [← bare_onto df, appendSlice_onto] at h
  rcases h' : df.bare.appendSlice slice with _ | d'
  · rw [h'] at h; cases h
  · rw [h'] at h; cases h; exact ⟨d'.stored, rfl⟩

/-- `append_slice` from a page in hand at offset `o` that holds bytes hands that page on, or keeps
it in hand with bytes in it. -/
theorem appendSlice_hands_or_keeps {df d : DataFile} {o : Nat} {slice : List UInt8}
    (hk : InHand o df) (h : df.appendSlice slice = .ok d) :
    ∃ t, d.stored = df.stored ++ t ∧ ((readPage t o).isSome ∨ InHand o d) := by
  obtain ⟨rfl, hpos⟩ := hk
  simp only [appendSlice, bind, Except.bind] at h
  split at h
  · cases h
  · rename_i r hloop
    obtain ⟨t, ht, hr⟩ := appendSliceLoop_hands_or_keeps hloop
    unfold Offset.new at h
    split_ifs at h
    cases h
    refine ⟨t, ht, hr.imp id fun ⟨_, hpg, hap, hw⟩ => ⟨hpg, ?_⟩⟩
    show 0 < PRef.inPagePos (r.1.appendPos + r.2)
    rw [hap]
    rcases hw with hw | hw
    · rwa [hw, Nat.add_zero]
    · have : PAYLOAD_MAX < PAGE_SIZE := by decide
      rw [PRef.inPagePos_add (by omega)]
      omega

/-- Since the pages `s`, the writer `df` has handed on a page at offset `o`, or still holds it with
bytes in it. -/
def Settled (o : Nat) (s : List Page) (df : DataFile) : Prop :=
  ∃ t, df.stored = s ++ t ∧ ((readPage t o).isSome ∨ InHand o df)

theorem Settled.appendSlice {o : Nat} {s : List Page} {df d : DataFile} {slice : List UInt8}
    (hs : Settled o s df) (h : df.appendSlice slice = .ok d) : Settled o s d := by
  obtain ⟨t, ht, hh⟩ := hs
  rcases hh with hh | hh
  · obtain ⟨t', ht'⟩ := appendSlice_stored h
    exact ⟨t ++ t', by rw [ht', ht, List.append_assoc], .inl (isSome_readPage_append hh t')⟩
  · obtain ⟨t', ht', hh'⟩ := appendSlice_hands_or_keeps hh h
    refine ⟨t ++ t', by rw [ht', ht, List.append_assoc], hh'.imp (fun h' => ?_) id⟩
    rw [readPage_append, Option.isSome_or, h', Bool.true_or]

/-- `append` from a page in hand at offset `o` that holds bytes hands that page on, or keeps it in
hand with bytes in it. -/
theorem append_settled {o : Nat} {df d : DataFile} {e : DataEntry} {off : Nat}
    (hk : InHand o df) (h : df.append e = .ok (d, off)) : Settled o df.stored d := by
  have hs : Settled o df.stored df := ⟨[], (List.append_nil _).symm, .inr hk⟩
  have hne : df.appendPos ≠ 0 := fun h0 => by
    have := hk.2
    rw [h0] at this
    exact absurd this (by decide)
  simp only [append, start_of_appendPos hne, bind, Except.bind] at h
  split at h; · cases h
  rename_i d₁ h₁
  split at h; · cases h
  split at h; · cases h
  rename_i d₂ h₂
  split at h; · cases h
  rename_i d₃ h₃
  cases h
  exact ((hs.appendSlice h₁).appendSlice h₂).appendSlice h₃

/-! ## Two writers that read alike -/

/-- The writer `a` has seen the calls the writer `b` has seen, and flushes besides. Both have
started, with the same `append_pos` and page in hand. Their files read alike, except at the offset
of a page in hand that holds bytes. -/
structure Alike (a b : DataFile) : Prop where
  appendPos_eq : a.appendPos = b.appendPos
  page_eq : a.page = b.page
  started : a.appendPos ≠ 0
  readPage_eq : ∀ o, readPage a.stored o = readPage b.stored o ∨ InHand o a

/-- A `flush` that only `a` sees. -/
theorem alike_flush {a b : DataFile} (hab : a = b ∨ Alike a b) : a.flush = b ∨ Alike a.flush b := by
  unfold flush
  split_ifs with hpos
  · refine .inr ⟨?_, ?_, ?_, fun o => ?_⟩
    · rcases hab with rfl | hab
      exacts [rfl, hab.appendPos_eq]
    · rcases hab with rfl | hab
      exacts [rfl, hab.page_eq]
    · exact fun h0 => by rw [h0] at hpos; exact absurd hpos (by decide)
    · rw [readPage_append_singleton]
      split_ifs with ho
      · exact .inr ⟨ho, hpos⟩
      · rcases hab with rfl | hab
        · exact .inl rfl
        · exact (hab.readPage_eq o).imp id fun h => absurd h.1 ho
  · exact hab

/-- After a last `flush` on each, two writers that read alike read the same. -/
theorem Alike.readPage_flush {a b : DataFile} (hab : Alike a b) :
    readPage a.flush.stored = readPage b.flush.stored := by
  funext o
  unfold flush
  rw [← hab.appendPos_eq]
  split_ifs with hpos
  · rw [readPage_append_singleton, readPage_append_singleton, hab.page_eq]
    split_ifs with ho
    · rfl
    · exact (hab.readPage_eq o).resolve_right fun h => ho (hab.page_eq ▸ h.1)
  · exact (hab.readPage_eq o).resolve_right fun h => hpos h.2

/-- An `append` both see, run over an empty file: each writer is that one over its own file. -/
theorem Alike.append {a b d : DataFile} {e : DataEntry} {off : Nat} (hab : Alike a b)
    (h : a.bare.append e = .ok (d, off)) : Alike (d.onto a.stored) (d.onto b.stored) := by
  refine ⟨rfl, rfl, fun h0 => ?_, fun o => ?_⟩
  · have := (append_ok h).2.1
    simp only [onto] at h0
    omega
  · simp only [onto, readPage_append]
    rcases hd : readPage d.stored o with _ | p
    · refine (hab.readPage_eq o).imp (by simp) fun hk => ?_
      obtain ⟨t, ht, hs⟩ := append_settled (show InHand o a.bare from hk) h
      rw [ht, show a.bare.stored ++ t = t from rfl] at hd
      exact hs.resolve_left (by rw [hd]; decide)
    · exact .inl rfl

/-! ## A session -/

/-- A call on a `DataFile` during one session. -/
inductive Call where
  | append (entry : DataEntry)
  | flush

/-- The entries the calls append. -/
def Call.entries : List Call → List DataEntry
  | [] => []
  | .append e :: cs => e :: entries cs
  | .flush :: cs => entries cs

/-- The calls run one after another on `df`, and the offsets the appends return. -/
def runCalls (df : DataFile) : List Call → Except String (DataFile × List Nat)
  | [] => .ok (df, [])
  | .append e :: cs => do
    let (df, o) ← df.append e
    let (df, os) ← runCalls df cs
    pure (df, o :: os)
  | .flush :: cs => runCalls df.flush cs

/-- What a caller sees once a session has run: the offsets the appends returned, `append_pos`, the
page in hand, and the pages `read_page` reads after a last `flush`. -/
def seen (r : DataFile × List Nat) : List Nat × Nat × Page × (Nat → Option Page) :=
  (r.2, r.1.appendPos, r.1.page, readPage r.1.flush.stored)

theorem seen_cons (o : Nat) (r : Except String (DataFile × List Nat)) :
    (r.map (Prod.map id (o :: ·))).map seen = (r.map seen).map (Prod.map (o :: ·) id) := by
  rcases r with _ | ⟨df, os⟩ <;> rfl

theorem runCalls_append_ok {a a' : DataFile} {e : DataEntry} {o : Nat} (h : a.append e = .ok (a', o))
    (cs : List Call) : a.runCalls (.append e :: cs) = (a'.runCalls cs).map (Prod.map id (o :: ·)) := by
  simp only [runCalls, h, bind, Except.bind]
  rcases a'.runCalls cs with _ | ⟨d, os⟩ <;> rfl

theorem appendAll_cons_ok {a a' : DataFile} {e : DataEntry} {o : Nat} (h : a.append e = .ok (a', o))
    (es : List DataEntry) : a.appendAll (e :: es) = (a'.appendAll es).map (Prod.map id (o :: ·)) := by
  simp only [appendAll, h, bind, Except.bind]
  rcases a'.appendAll es with _ | ⟨d, os⟩ <;> rfl

/-- An `append` on two writers of which one has seen flushes the other has not: the same error, or
the same offset and two writers again one of which has seen flushes the other has not. -/
theorem append_of_alike {a b : DataFile} (hab : a = b ∨ Alike a b) (e : DataEntry) :
    ∃ x : Except String (DataFile × DataFile × Nat),
      a.append e = x.map (fun r => (r.1, r.2.2)) ∧ b.append e = x.map (fun r => (r.2.1, r.2.2)) ∧
        ∀ r, x = .ok r → r.1 = r.2.1 ∨ Alike r.1 r.2.1 := by
  rcases hab with rfl | hab
  · refine ⟨(a.append e).map fun r => (r.1, r.1, r.2), ?_, ?_, fun r hr => ?_⟩
    · rcases a.append e with _ | ⟨d, o⟩ <;> rfl
    · rcases a.append e with _ | ⟨d, o⟩ <;> rfl
    · rcases h : a.append e with _ | ⟨d, o⟩ <;> rw [h] at hr <;> cases hr
      exact .inl rfl
  · have hb : a.bare.onto b.stored = b := by
      rcases b with ⟨ap, pg, s⟩
      simp only [onto, bare, List.append_nil, hab.appendPos_eq, hab.page_eq]
    refine ⟨(a.bare.append e).map fun r => (r.1.onto a.stored, r.1.onto b.stored, r.2), ?_, ?_, ?_⟩
    · conv_lhs => rw [← bare_onto a, append_onto a.stored (show a.bare.appendPos ≠ 0 from hab.started)]
      rcases a.bare.append e with _ | ⟨d, o⟩ <;> rfl
    · conv_lhs => rw [← hb, append_onto b.stored (show a.bare.appendPos ≠ 0 from hab.started)]
      rcases a.bare.append e with _ | ⟨d, o⟩ <;> rfl
    · intro r hr
      rcases h : a.bare.append e with _ | ⟨d, o⟩ <;> rw [h] at hr <;> cases hr
      exact .inr (hab.append h)

/-- Flushes in the middle of a session are never seen. Run any sequence of `append` and `flush`
calls, then one more `flush`. The appends return the same offsets, or the first failing one the
same error, as with the appends alone. `append_pos` and the page in hand are the same, and
`read_page` reads the same page at every offset. -/
theorem runCalls_flushes_unseen (df : DataFile) (cs : List Call) :
    (df.runCalls cs).map seen = (df.appendAll (Call.entries cs)).map seen := by
  suffices ∀ a b, (a = b ∨ Alike a b) →
      (a.runCalls cs).map seen = (b.appendAll (Call.entries cs)).map seen from this df df (.inl rfl)
  induction cs with
  | nil =>
    rintro a b (rfl | hab)
    · rfl
    · simp only [runCalls, Call.entries, appendAll, Except.map, seen, hab.appendPos_eq,
        hab.page_eq, hab.readPage_flush]
  | cons c cs ih =>
    intro a b hab
    cases c with
    | flush => exact ih _ _ (alike_flush hab)
    | append e =>
      obtain ⟨x, ha, hb, hx⟩ := append_of_alike hab e
      rcases x with _ | ⟨a', b', o⟩
      · rw [runCalls, Call.entries, appendAll, ha, hb]; rfl
      · rw [Call.entries, runCalls_append_ok ha, appendAll_cons_ok hb, seen_cons, seen_cons,
          ih a' b' (hx _ rfl)]

/-! ## Sessions on one file -/

/-- `DataFile::new` over a file that holds the pages `stored`. -/
def newOver (stored : List Page) : DataFile := ⟨0, Page.new 0, stored⟩

/-- Sessions one after another on one file. Each opens the file with `DataFile::new`, appends its
entries and ends with `flush`. The pages the file holds after the last session. -/
def sessions (stored : List Page) : List (List DataEntry) → Except String (List Page)
  | [] => .ok stored
  | es :: ess => do
    let (df, _) ← (newOver stored).appendAll es
    sessions df.flush.stored ess

/-- Whether the length field of every entry of the sessions stays in one page. The first entry
written to an empty file goes after the two magic bytes. The first entry of a later session goes at
the start of a page. -/
def sessionsFit (i : Nat) : List (List DataEntry) → Bool
  | [] => true
  | es :: ess => lengthFits i es && sessionsFit (if es = [] then i else 0) ess

/-- A file of pages at consecutive offsets is as long as its pages. -/
theorem len_of_offsets {df : DataFile}
    (h : df.stored.map Page.offset = (List.range df.stored.length).map (· * PAGE_SIZE)) :
    df.len = df.stored.length * PAGE_SIZE := by
  have key : ∀ a n, ((List.range' a n).map (· * PAGE_SIZE)).foldr
      (fun o m => max (o + PAGE_SIZE) m) 0 = if n = 0 then 0 else (a + n) * PAGE_SIZE := by
    intro a n
    induction n generalizing a with
    | zero => rfl
    | succ n ih =>
      rw [List.range'_succ, List.map_cons, List.foldr_cons, ih, if_neg n.succ_ne_zero, Nat.max_def]
      unfold PAGE_SIZE
      split_ifs <;> omega
  have hlen : df.len = (df.stored.map Page.offset).foldr (fun o m => max (o + PAGE_SIZE) m) 0 := by
    rw [List.foldr_map]; rfl
  rw [hlen, h, List.range_eq_range', key]
  split_ifs with h0
  · rw [h0, Nat.zero_mul]
  · rw [Nat.zero_add]

/-- `DataFile::new` over one or more pages at consecutive offsets starts a new page after them and
writes no magic bytes. -/
theorem start_newOver {stored : List Page}
    (h : stored.map Page.offset = (List.range stored.length).map (· * PAGE_SIZE)) (hne : stored ≠ []) :
    (newOver stored).start =
      .ok ⟨stored.length * PAGE_SIZE, Page.new (stored.length * PAGE_SIZE), stored⟩ := by
  have hpos : stored.length * PAGE_SIZE ≠ 0 :=
    Nat.mul_ne_zero (fun h0 => hne (List.length_eq_zero.mp h0)) (by decide)
  have hlen : (newOver stored).len = stored.length * PAGE_SIZE := len_of_offsets h
  rw [start, if_pos ⟨rfl, rfl⟩]
  dsimp only
  rw [hlen, if_neg hpos]
  rfl

theorem layout_newOver {stored : List Page}
    (h : stored.map Page.offset = (List.range stored.length).map (· * PAGE_SIZE)) :
    Layout ⟨stored.length * PAGE_SIZE, Page.new (stored.length * PAGE_SIZE), stored⟩ [] :=
  ⟨h, rfl, Nat.zero_le _, rfl, (Nat.add_zero _).symm⟩

theorem ReadsBack.done_nil {done : List DataEntry} (h : ReadsBack [] done) : done = [] := by
  have h0 := h.decode []
  rw [show (payloads []).drop 2 ++ [] = [] from rfl,
    DataIterator.decodeStream_of_none (s := []) rfl, List.append_nil] at h0
  exact h0.symm

/-- One session on pages that read back `done`. Its entries are read back after `done`, the file
grows by at most four pages an entry, and it holds a page once an entry has been written. -/
theorem session_readsBack {stored : List Page} {done es : List DataEntry} {i : Nat}
    (hr : ReadsBack stored done) (hlen : stored.length ≤ 4 * done.length)
    (hi : i = if stored.isEmpty then 2 else 0)
    (hes : ∀ e ∈ es, e.dataType ≠ .padding ∧ e.content.length ≤ PAYLOAD_MAX)
    (hfit : lengthFits i es = true) (hn : done.length + es.length < 2 ^ 30) :
    ∃ df os, (newOver stored).appendAll es = .ok (df, os) ∧ ReadsBack df.flush.stored (done ++ es) ∧
      df.flush.stored.length ≤ 4 * (done ++ es).length ∧
      (if es = [] then i else 0) = if df.flush.stored.isEmpty then 2 else 0 := by
  rcases es with _ | ⟨e, es⟩
  · have hf : (newOver stored).flush = newOver stored := rfl
    refine ⟨newOver stored, [], rfl, ?_, ?_, ?_⟩ <;> rw [hf]
    · rwa [List.append_nil]
    · rwa [List.append_nil]
    · rw [if_pos rfl, hi]; rfl
  · rw [List.length_cons] at hn
    by_cases hs : stored = []
    · subst hs
      obtain rfl : done = [] := hr.done_nil
      rw [List.isEmpty_nil, if_pos rfl] at hi
      subst hi
      obtain ⟨df', os, cur', h', hl', hcur', -, hp', hn', -⟩ :=
        appendAll_layout start_new layout_start_new (fun e' he' => (hes e' he').2)
          (by unfold PAGE_SIZE; simp only [List.length_nil]; omega)
      refine ⟨df', 2 :: os, h', readsBack_flush hl' hcur' hp' hes hfit (by decide) fun _ => rfl,
        ?_, ?_⟩
      · rw [flush_stored hl' hcur', List.length_append, List.length_singleton, List.nil_append,
          List.length_cons]
        simp only [List.length_nil] at hn'
        omega
      · rw [flush_stored hl' hcur', if_neg (List.cons_ne_nil _ _), if_neg (by simp)]
    · rw [if_neg (by simpa using hs)] at hi
      subst hi
      obtain ⟨df', os, cur', h', hl', hcur', -, hp', hn', -⟩ :=
        appendAll_layout (start_newOver hr.offsets hs) (layout_newOver hr.offsets)
          (fun e' he' => (hes e' he').2)
          (show (stored.length + 3 * es.length + 4) * PAGE_SIZE < 2 ^ 48 by unfold PAGE_SIZE; omega)
      dsimp only at hn'
      have h2 : 2 ≤ (payloads stored ++ []).length := by
        have := List.length_pos.mpr hs
        rw [List.append_nil, length_payloads]
        unfold PAYLOAD_MAX PAGE_PAYLOAD_SIZE
        omega
      refine ⟨df', _ :: os, h', readsBack_flush hl' hcur' hp' hes hfit h2 fun tail => ?_, ?_, ?_⟩
      · rw [List.append_nil]; exact hr.decode tail
      · rw [flush_stored hl' hcur', List.length_append, List.length_singleton, List.length_append,
          List.length_cons]
        omega
      · rw [flush_stored hl' hcur', if_neg (List.cons_ne_nil _ _), if_neg (by simp)]

/-- Data survives reopening the file. Open a file with `DataFile::new`, append entries, `flush`, and
do so again any number of times. Opened once more, the file yields through `data_iter` every entry
of every session, in order, and then only `None`. This holds when no entry is of type padding or
longer than a payload, and no length field crosses a page boundary. -/
theorem sessions_roundTrip {ess : List (List DataEntry)}
    (hes : ∀ es ∈ ess, ∀ e ∈ es, e.dataType ≠ .padding ∧ e.content.length ≤ PAYLOAD_MAX)
    (hfit : sessionsFit 2 ess = true) (hn : ess.flatten.length < 2 ^ 30) :
    ∃ stored, sessions [] ess = .ok stored ∧ ∀ k,
      (newOver stored).dataIter.nexts (ess.flatten.length + 1 + k) =
        ess.flatten.map some ++ List.replicate (k + 1) none := by
  suffices ∀ stored done i, ReadsBack stored done → stored.length ≤ 4 * done.length →
      i = (if stored.isEmpty then 2 else 0) → sessionsFit i ess = true →
      done.length + ess.flatten.length < 2 ^ 30 →
      ∃ stored', sessions stored ess = .ok stored' ∧ ReadsBack stored' (done ++ ess.flatten) ∧
        stored'.length ≤ 4 * (done ++ ess.flatten).length by
    obtain ⟨stored, h, hr, hlen⟩ :=
      this [] [] 2 ⟨rfl, fun _ => rfl⟩ le_rfl rfl hfit (by rwa [List.length_nil, Nat.zero_add])
    refine ⟨stored, h, hr.nexts ?_⟩
    rw [List.nil_append] at hlen
    show stored.length ≤ 2 ^ 47 / 4096
    omega
  clear hfit hn
  induction ess with
  | nil =>
    intro stored done i hr hlen _ _ _
    exact ⟨stored, rfl, by rwa [List.flatten_nil, List.append_nil],
      by rwa [List.flatten_nil, List.append_nil]⟩
  | cons es ess ih =>
    intro stored done i hr hlen hi hfit hn
    simp only [sessionsFit, Bool.and_eq_true] at hfit
    rw [List.flatten_cons, List.length_append] at hn
    obtain ⟨df, os, h, hr', hlen', hi'⟩ :=
      session_readsBack hr hlen hi (hes es (List.mem_cons_self es ess)) hfit.1 (by omega)
    obtain ⟨stored', h', hr'', hlen''⟩ :=
      ih (fun es' hes' => hes es' (List.mem_cons_of_mem es hes')) _ _ _ hr' hlen' hi' hfit.2
        (by rw [List.length_append]; omega)
    refine ⟨stored', ?_, ?_, ?_⟩
    · rw [sessions, h]; exact h'
    · rwa [List.flatten_cons, ← List.append_assoc]
    · rwa [List.flatten_cons, ← List.append_assoc]

/-- `sessions_roundTrip` for two sessions of one short entry each: the second session starts a new
page after the padding the first one's `flush` left. -/
theorem sessions_roundTrip_two :
    (∀ es ∈ [[DataEntry.mk .transactionOrAppData [1, 2, 3]], [DataEntry.mk .headerOrBlock [4]]],
        ∀ e ∈ es, e.dataType ≠ .padding ∧ e.content.length ≤ PAYLOAD_MAX) ∧
      sessionsFit 2 [[DataEntry.mk .transactionOrAppData [1, 2, 3]],
        [DataEntry.mk .headerOrBlock [4]]] = true ∧
      [[DataEntry.mk .transactionOrAppData [1, 2, 3]],
        [DataEntry.mk .headerOrBlock [4]]].flatten.length < 2 ^ 30 ∧
      ∃ stored, sessions [] [[DataEntry.mk .transactionOrAppData [1, 2, 3]],
          [DataEntry.mk .headerOrBlock [4]]] = .ok stored ∧ ∀ k,
        (newOver stored).dataIter.nexts (2 + 1 + k) =
          [some (DataEntry.mk .transactionOrAppData [1, 2, 3]),
            some (DataEntry.mk .headerOrBlock [4])] ++ List.replicate (k + 1) none :=
  ⟨by decide, by decide, by decide, sessions_roundTrip (by decide) (by decide) (by decide)⟩

end Hammersbald.DataFile
