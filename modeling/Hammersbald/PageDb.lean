import Hammersbald.DataFile.Writer

/-!
# Recovery of the page database

`PageDB::new` (`pagedb.rs`) checks the magic bytes of the table, data and log files, replays the
log with `recover` and starts a new batch with `batch`.  The log is a header page (the magic
`BC 00`, the data length at bytes `2..8`, the table length at bytes `8..14`) followed by
pre-images of table pages.  `recover` truncates the data and the table file to the lengths of the
header, writes the pre-images below the table length back, empties the log and syncs the log.
`batch` syncs the data and the table file and writes a fresh header to the log.

The model.

* A file is durable content and the changes made since its last sync (`Synced`).  `sync` makes
  the changes durable and `crash` drops them; `flush` hands them to the operating system and
  changes neither.
* `recoverSteps` and `batchSteps` list the file operations of `recover` and `batch` in the order
  the code issues them, and `exec` runs them.  A crash after `k` steps keeps the durable part of
  the state the first `k` steps reach (`crashAfter`); `reopen` is `PageDB::new` run again on it,
  where an `Err` leaves the files as they are.
* `recovered` is the state recovery should reach, in the words of the spec: the data file
  truncated to the header's data length, and the table file truncated to the header's table length
  with the pre-images below that length written back.

The results.

* `new_recovered`: an uninterrupted `PageDB::new` leaves the data and the table file durably equal
  to `recovered`.
* `crash_safe`: so does a crash before `recover` syncs the log, or after `batch` has synced the
  table, followed by a second `PageDB::new`.
* `durables_reopen_crashAfter_add`: after a crash `j` operations into `batch` and a second
  `PageDB::new`, the data file is recovered only if `batch` had synced it (`j ≥ 2`), and the table
  file only if `batch` had synced it (`j ≥ 4`); before that they are as they were before recovery,
  since `recover` has already synced the emptied log that held the header and the pre-images.
* `recover_crash_after_log_sync`: a database on which such a crash leaves other files than
  recovery should.
* `reopen_reopen`: a second `PageDB::new` right after a first one changes neither the data nor the
  table file.
-/

namespace Hammersbald

/-! ## Files -/

/-- Modelled from the spec: the content of the data or the table file, its length and the page
stored at each offset. -/
@[ext] structure Content where
  len : Nat
  page : Nat → Option Page

namespace Content

/-- Modelled from the spec: `truncate(len)`. -/
def truncate (c : Content) (len : Nat) : Content :=
  ⟨len, fun o => if o < len then c.page o else none⟩

/-- Modelled from the spec: `write_page(page)`, at the page's own offset. -/
def writePage (c : Content) (pg : Page) : Content :=
  ⟨max c.len (pg.offset + PAGE_SIZE), fun o => if o = pg.offset then some pg else c.page o⟩

/-- No page at or past the length. -/
def Wf (c : Content) : Prop := ∀ o, c.len ≤ o → c.page o = none

theorem Wf.truncate {c : Content} (len : Nat) : (c.truncate len).Wf := by
  intro o ho
  simp only [Content.truncate] at ho ⊢
  rw [if_neg (by omega)]

theorem Wf.writePage {c : Content} (hc : c.Wf) (pg : Page) : (c.writePage pg).Wf := by
  intro o ho
  simp only [Content.writePage] at ho ⊢
  rw [if_neg (by unfold PAGE_SIZE at ho; omega), hc o (by omega)]

theorem Wf.truncate_len {c : Content} (hc : c.Wf) : c.truncate c.len = c := by
  ext o
  · rfl
  · simp only [Content.truncate]
    split_ifs with h
    · rfl
    · rw [hc o (by omega)]

end Content

/-- A change to the data or the table file. -/
inductive Change where
  | truncate (len : Nat)
  | writePage (pg : Page)

/-- A change to the log file. -/
inductive LogChange where
  | truncate
  | appendPage (pg : Page)

/-- What a change does to a file's content. -/
class Replay (α χ : Type) where
  replay : α → χ → α

instance : Replay Content Change where
  replay c
    | .truncate len => c.truncate len
    | .writePage pg => c.writePage pg

instance : Replay (List Page) LogChange where
  replay pages
    | .truncate => []
    | .appendPage pg => pages ++ [pg]

/-- Modelled from the spec: a file as its durable content and the changes made since its last
sync, oldest first. -/
structure Synced (α χ : Type) where
  durable : α
  pending : List χ

namespace Synced

variable {α χ : Type}

/-- A change, pending until the next sync. -/
def push (f : Synced α χ) (ch : χ) : Synced α χ := ⟨f.durable, f.pending ++ [ch]⟩

/-- A crash drops the pending changes. -/
def crash (f : Synced α χ) : Synced α χ := ⟨f.durable, []⟩

@[simp] theorem durable_push (f : Synced α χ) (ch : χ) : (f.push ch).durable = f.durable := rfl

@[simp] theorem crash_push (f : Synced α χ) (ch : χ) : (f.push ch).crash = f.crash := rfl

variable [Replay α χ]

/-- The content the program sees. -/
def current (f : Synced α χ) : α := f.pending.foldl Replay.replay f.durable

/-- `sync`: the content the program sees becomes durable. -/
def sync (f : Synced α χ) : Synced α χ := ⟨f.current, []⟩

@[simp] theorem current_push (f : Synced α χ) (ch : χ) :
    (f.push ch).current = Replay.replay f.current ch := by
  simp [current, push]

@[simp] theorem current_sync (f : Synced α χ) : f.sync.current = f.current := rfl

@[simp] theorem durable_sync (f : Synced α χ) : f.sync.durable = f.current := rfl

@[simp] theorem current_of_pending_nil {f : Synced α χ} (h : f.pending = []) :
    f.current = f.durable := by
  simp [current, h]

end Synced

/-- `PageDB`: the table, data and log files. -/
structure PageDb where
  table : Synced Content Change
  data : Synced Content Change
  log : Synced (List Page) LogChange

namespace PageDb

/-- A state with no pending change: what a crash leaves. -/
def Settled (db : PageDb) : Prop :=
  db.table.pending = [] ∧ db.data.pending = [] ∧ db.log.pending = []

/-- A crash of the machine. -/
def crash (db : PageDb) : PageDb := ⟨db.table.crash, db.data.crash, db.log.crash⟩

theorem crash_of_settled {db : PageDb} (h : Settled db) : crash db = db := by
  obtain ⟨⟨t, tp⟩, ⟨d, dp⟩, ⟨l, lp⟩⟩ := db
  obtain ⟨rfl, rfl, rfl⟩ := h
  rfl

/-! ## The log header -/

/-- Modelled from the spec: `Offset::from_slice` of bytes `2..8` of the first log page. -/
def headerDataLen (first : Page) : Nat := decodeBE (first.read 2 6)

/-- Modelled from the spec: `Offset::from_slice` of bytes `8..14` of the first log page. -/
def headerTableLen (first : Page) : Nat := decodeBE (first.read 8 6)

/-- The first log page `batch` writes: the magic `BC 00`, then the data and the table length. -/
def header (dataLen tableLen : Nat) : Page :=
  (((Page.new 0).write 0 [0xBC, 0x00]).write 2 (encodeBE 6 dataLen)).write 8 (encodeBE 6 tableLen)

theorem header_payload (dataLen tableLen : Nat) :
    (header dataLen tableLen).payload =
      [0xBC, 0x00] ++ encodeBE 6 dataLen ++ encodeBE 6 tableLen ++ List.replicate 4076 0 := by
  simp only [header, Page.write_payload, Page.new]
  rw [splice_replicate_zero _ _ (by decide)]
  rw [show (2 : Nat) = [(0xBC : UInt8), 0x00].length from rfl,
    splice_append_replicate _ _ _ (by simp; decide)]
  rw [show (8 : Nat) = ([(0xBC : UInt8), 0x00] ++ encodeBE 6 dataLen).length by simp,
    splice_append_replicate _ _ _ (by simp; decide)]
  rfl

theorem headerDataLen_header {dataLen : Nat} (tableLen : Nat) (h : dataLen < 2 ^ 48) :
    headerDataLen (header dataLen tableLen) = dataLen := by
  rw [headerDataLen, Page.read, header_payload]
  simp only [List.append_assoc, List.cons_append, List.drop_succ_cons, List.drop_zero,
    List.nil_append]
  rw [List.take_left' (length_encodeBE 6 dataLen)]
  exact decodeBE_encodeBE_of_lt h

theorem headerTableLen_header (dataLen : Nat) {tableLen : Nat} (h : tableLen < 2 ^ 48) :
    headerTableLen (header dataLen tableLen) = tableLen := by
  rw [headerTableLen, Page.read, header_payload, List.append_assoc _ (encodeBE 6 tableLen),
    List.drop_left' (by simp), List.take_left' (length_encodeBE 6 tableLen)]
  exact decodeBE_encodeBE_of_lt h

/-! ## `PageDB::new` -/

/-- The file operations of `PageDB::new` after its checks. -/
inductive Step where
  | truncateData (len : Nat)
  | truncateTable (len : Nat)
  | writeTable (pg : Page)
  | truncateLog
  | appendLogHeader
  | flushData
  | flushTable
  | flushLog
  | syncData
  | syncTable
  | syncLog

/-- One file operation.  `appendLogHeader` is `batch`'s header for the lengths the data and the
table file have when it runs. -/
def Step.exec (db : PageDb) : Step → PageDb
  | .truncateData len => { db with data := db.data.push (.truncate len) }
  | .truncateTable len => { db with table := db.table.push (.truncate len) }
  | .writeTable pg => { db with table := db.table.push (.writePage pg) }
  | .truncateLog => { db with log := db.log.push .truncate }
  | .appendLogHeader =>
    { db with log := db.log.push (.appendPage (header db.data.current.len db.table.current.len)) }
  | .flushData | .flushTable | .flushLog => db
  | .syncData => { db with data := db.data.sync }
  | .syncTable => { db with table := db.table.sync }
  | .syncLog => { db with log := db.log.sync }

/-- A sequence of file operations. -/
def exec (db : PageDb) (steps : List Step) : PageDb := steps.foldl Step.exec db

/-- `PageDB::recover` over the pages of the log: truncate the data and the table file to the
header's lengths, write back the pre-images below the table length, empty the log, sync it. -/
def recoverSteps : List Page → List Step
  | [] => []
  | first :: pages =>
    [.truncateData (headerDataLen first), .truncateTable (headerTableLen first)] ++
      (pages.filter (fun pg => pg.offset < headerTableLen first)).map .writeTable ++
      [.truncateLog, .syncLog]

/-- `PageDB::batch`; `log.reset()` changes no file. -/
def batchSteps : List Step :=
  [.flushData, .syncData, .flushTable, .syncTable, .truncateLog, .appendLogHeader, .flushLog,
    .syncLog]

/-- The file operations of `PageDB::new` once its checks have passed. -/
def newSteps (db : PageDb) : List Step := recoverSteps db.log.current ++ batchSteps

/-- `PageDB::check`: an empty file, or one whose first page starts with `magic`. -/
def check (c : Content) (magic : List UInt8) : Except String Unit :=
  if c.len = 0 then .ok ()
  else
    match c.page 0 with
    | none => .error "read_page"
    | some first => if first.read 0 2 = magic then .ok () else .error "BadMagic"

/-- `PageDB::check_log`: an empty log, or one whose first page starts with `magic`. -/
def checkLog (pages : List Page) (magic : List UInt8) : Except String Unit :=
  match pages with
  | [] => .ok ()
  | first :: _ => if first.read 0 2 = magic then .ok () else .error "BadMagic"

/-- `PageDB::new`. -/
def new (db : PageDb) : Except String PageDb := do
  check db.table.current [0xBC, 0xDB]
  check db.data.current [0xBC, 0xDA]
  checkLog db.log.current [0xBC, 0x00]
  pure (exec db (newSteps db))

/-- A crash after the first `k` file operations of `PageDB::new`. -/
def crashAfter (db : PageDb) (k : Nat) : PageDb := crash (exec db ((newSteps db).take k))

/-- `PageDB::new` run again; an `Err` leaves the files as they are. -/
def reopen (db : PageDb) : PageDb :=
  match new db with
  | .ok db' => db'
  | .error _ => db

/-- The data and the table content recovery should reach, in the words of the spec. -/
def recovered (db : PageDb) : Content × Content :=
  match db.log.durable with
  | [] => (db.data.durable, db.table.durable)
  | first :: pages =>
    (db.data.durable.truncate (headerDataLen first),
      (pages.filter (fun pg => pg.offset < headerTableLen first)).foldl Content.writePage
        (db.table.durable.truncate (headerTableLen first)))

/-- The durable data and table content. -/
def durables (db : PageDb) : Content × Content := (db.data.durable, db.table.durable)

/-! ## Running the steps -/

@[simp] theorem exec_nil (db : PageDb) : exec db [] = db := rfl

theorem exec_append (db : PageDb) (s t : List Step) : exec db (s ++ t) = exec (exec db s) t :=
  List.foldl_append _ _ _ _

theorem exec_writeTables (db : PageDb) (pages : List Page) :
    exec db (pages.map .writeTable) =
      { db with table := ⟨db.table.durable, db.table.pending ++ pages.map .writePage⟩ } := by
  induction pages generalizing db with
  | nil => simp
  | cons pg pages ih =>
    simp only [List.map_cons, exec, List.foldl_cons] at ih ⊢
    rw [ih]
    simp [Step.exec, Synced.push]

/-- After `recover`: the truncations and the pre-images are pending, the log is durably empty. -/
theorem exec_recoverSteps (db : PageDb) (first : Page) (pages : List Page) :
    exec db (recoverSteps (first :: pages)) =
      ⟨⟨db.table.durable, db.table.pending ++ .truncate (headerTableLen first) ::
          (pages.filter (fun pg => pg.offset < headerTableLen first)).map .writePage⟩,
        db.data.push (.truncate (headerDataLen first)), (db.log.push .truncate).sync⟩ := by
  rw [recoverSteps, exec_append, exec_append, exec_writeTables]
  simp [exec, Step.exec, Synced.push]

/-- After `batch`: the data and the table file are synced, and the log durably holds the header
for their lengths. -/
theorem exec_batchSteps (db : PageDb) :
    exec db batchSteps =
      ⟨db.table.sync, db.data.sync,
        ((db.log.push .truncate).push
          (.appendPage (header db.data.current.len db.table.current.len))).sync⟩ := by
  simp [exec, batchSteps, Step.exec]

/-- The checks of `PageDB::new` on the durable files. -/
def ChecksPass (db : PageDb) : Prop :=
  check db.table.durable [0xBC, 0xDB] = .ok () ∧ check db.data.durable [0xBC, 0xDA] = .ok () ∧
    checkLog db.log.durable [0xBC, 0x00] = .ok ()

theorem new_eq {db : PageDb} (hs : Settled db) (hc : ChecksPass db) :
    new db = .ok (exec db (newSteps db)) := by
  obtain ⟨ht, hd, hl⟩ := hs
  obtain ⟨c₁, c₂, c₃⟩ := hc
  simp only [new, Synced.current_of_pending_nil ht, Synced.current_of_pending_nil hd,
    Synced.current_of_pending_nil hl, c₁, c₂, c₃]
  rfl

theorem current_truncate_writes (c : Content) (len : Nat) (pages : List Page) :
    Synced.current (⟨c, .truncate len :: pages.map .writePage⟩ : Synced Content Change) =
      pages.foldl Content.writePage (c.truncate len) := by
  simp only [Synced.current, List.foldl_cons, List.foldl_map]
  rfl

/-- After `recover`, the data and the table file the program sees are the recovered ones, and
the log is durably empty. -/
theorem exec_recoverSteps_settled {db : PageDb} (hs : Settled db) :
    ((exec db (recoverSteps db.log.current)).data.current,
      (exec db (recoverSteps db.log.current)).table.current) = recovered db ∧
    (exec db (recoverSteps db.log.current)).log = ⟨[], []⟩ := by
  obtain ⟨⟨t, tp⟩, ⟨d, dp⟩, ⟨l, lp⟩⟩ := db
  obtain ⟨rfl, rfl, rfl⟩ := hs
  cases l with
  | nil => exact ⟨rfl, rfl⟩
  | cons first pages =>
    rw [show Synced.current (⟨first :: pages, []⟩ : Synced (List Page) LogChange) = first :: pages
      from rfl, exec_recoverSteps]
    refine ⟨?_, rfl⟩
    simp only [List.nil_append, current_truncate_writes, Synced.current_push]
    rfl

/-- An uninterrupted `PageDB::new` leaves the data and the table file durably as recovery should. -/
theorem new_recovered {db : PageDb} (hs : Settled db) :
    durables (exec db (newSteps db)) = recovered db := by
  rw [newSteps, exec_append, exec_batchSteps]
  exact (exec_recoverSteps_settled hs).1

/-! ## Crashes -/

/-- The operations that make something durable. -/
def Step.syncs : Step → Bool
  | .syncData | .syncTable | .syncLog => true
  | _ => false

theorem crash_exec_of_not_syncs {db : PageDb} {steps : List Step}
    (h : ∀ s ∈ steps, s.syncs = false) : crash (exec db steps) = crash db := by
  induction steps generalizing db with
  | nil => rfl
  | cons s steps ih =>
    rw [exec, List.foldl_cons, ← exec, ih fun t ht => h t (List.mem_cons_of_mem _ ht)]
    have hs := h s (List.mem_cons_self _ _)
    cases s <;> first | rfl | cases hs

/-- `recover` is operations that sync nothing, and then the sync of the emptied log. -/
theorem recoverSteps_cons (first : Page) (pages : List Page) :
    ∃ pre, recoverSteps (first :: pages) = pre ++ [.syncLog] ∧ ∀ s ∈ pre, s.syncs = false := by
  refine ⟨[.truncateData (headerDataLen first), .truncateTable (headerTableLen first)] ++
    (pages.filter (fun pg => pg.offset < headerTableLen first)).map .writeTable ++ [.truncateLog],
    by simp [recoverSteps], ?_⟩
  simp only [List.mem_append, List.mem_cons, List.mem_map, List.not_mem_nil, or_false]
  rintro s (((rfl | rfl) | ⟨pg, -, rfl⟩) | rfl) <;> rfl

/-- A crash before `recover` syncs the log leaves the files as they were. -/
theorem crashAfter_before_log_sync {db : PageDb} {k : Nat}
    (hk : k < (recoverSteps db.log.current).length) : crashAfter db k = crash db := by
  cases hlog : db.log.current with
  | nil => rw [hlog] at hk; cases hk
  | cons first pages =>
    obtain ⟨pre, hpre, hs⟩ := recoverSteps_cons first pages
    rw [hlog, hpre, List.length_append, List.length_singleton] at hk
    rw [crashAfter, newSteps, hlog, hpre, List.append_assoc, List.take_append_of_le_length (by omega)]
    exact crash_exec_of_not_syncs fun s hs' => hs s (List.mem_of_mem_take hs')

/-- What a crash leaves after the first `j` operations of `batch` on an emptied log: `batch` syncs
the data file with its second operation, the table file with its fourth and the log with its
eighth. -/
theorem crash_exec_batchSteps_take (t d : Synced Content Change) (j : Nat) :
    crash (exec ⟨t, d, ⟨[], []⟩⟩ (batchSteps.take j)) =
      ⟨⟨if j < 4 then t.durable else t.current, []⟩, ⟨if j < 2 then d.durable else d.current, []⟩,
        ⟨if j < 8 then [] else [header d.current.len t.current.len], []⟩⟩ := by
  rcases j with _ | _ | _ | _ | _ | _ | _ | _ | j
  all_goals try rfl
  rw [List.take_of_length_le (by simp [batchSteps]), exec_batchSteps,
    if_neg (by omega), if_neg (by omega), if_neg (by omega)]
  rfl

theorem durables_exec_recoverSteps (db : PageDb) :
    durables (exec db (recoverSteps db.log.current)) = durables db := by
  cases db.log.current with
  | nil => rfl
  | cons first pages => rw [exec_recoverSteps]; rfl

/-- A crash `j` operations into `batch`: the data file is recovered from the second operation on,
the table file from the fourth, and the log holds the new header from the eighth. -/
theorem crashAfter_recoverSteps_add {db : PageDb} (hs : Settled db) (j : Nat) :
    crashAfter db ((recoverSteps db.log.current).length + j) =
      ⟨⟨if j < 4 then db.table.durable else (recovered db).2, []⟩,
        ⟨if j < 2 then db.data.durable else (recovered db).1, []⟩,
        ⟨if j < 8 then [] else [header (recovered db).1.len (recovered db).2.len], []⟩⟩ := by
  obtain ⟨hcur, hlog⟩ := exec_recoverSteps_settled hs
  have hdur := durables_exec_recoverSteps db
  rw [crashAfter, newSteps, List.take_append, exec_append]
  generalize exec db (recoverSteps db.log.current) = db₁ at hcur hlog hdur
  obtain ⟨t, d, l⟩ := db₁
  dsimp only at hlog
  subst hlog
  rw [crash_exec_batchSteps_take, ← hcur]
  obtain ⟨hd, ht⟩ := Prod.mk.inj hdur
  dsimp only at hd ht
  rw [hd, ht]

/-! ## Opening again -/

theorem new_ok {db db' : PageDb} (h : new db = .ok db') : db' = exec db (newSteps db) := by
  unfold new at h
  revert h
  cases check db.table.current [0xBC, 0xDB] <;> cases check db.data.current [0xBC, 0xDA] <;>
    cases checkLog db.log.current [0xBC, 0x00] <;> intro h <;> cases h
  rfl

/-- `PageDB::new` on a settled state either fails and changes nothing, or recovers. -/
theorem durables_reopen {db : PageDb} (hs : Settled db) :
    durables (reopen db) = durables db ∨ durables (reopen db) = recovered db := by
  unfold reopen
  split
  · rename_i db' h
    rw [new_ok h]
    exact .inr (new_recovered hs)
  · exact .inl rfl

/-- With an empty log there is nothing to recover. -/
theorem durables_reopen_of_log_nil (d t : Content) :
    durables (reopen ⟨⟨t, []⟩, ⟨d, []⟩, ⟨[], []⟩⟩) = (d, t) := by
  rcases @durables_reopen ⟨⟨t, []⟩, ⟨d, []⟩, ⟨[], []⟩⟩ ⟨rfl, rfl, rfl⟩ with h | h <;> rw [h] <;>
    rfl

/-- Nor with the header of the files' own lengths. -/
theorem durables_reopen_of_header {d t : Content} (hd : d.Wf) (ht : t.Wf) (hdl : d.len < 2 ^ 48)
    (htl : t.len < 2 ^ 48) :
    durables (reopen ⟨⟨t, []⟩, ⟨d, []⟩, ⟨[header d.len t.len], []⟩⟩) = (d, t) := by
  rcases @durables_reopen ⟨⟨t, []⟩, ⟨d, []⟩, ⟨[header d.len t.len], []⟩⟩ ⟨rfl, rfl, rfl⟩
    with h | h <;> rw [h]
  · rfl
  · simp only [recovered, headerDataLen_header _ hdl, headerTableLen_header _ htl,
      List.filter_nil, List.foldl_nil, hd.truncate_len, ht.truncate_len]

theorem recovered_wf {db : PageDb} (hd : db.data.durable.Wf) (ht : db.table.durable.Wf) :
    (recovered db).1.Wf ∧ (recovered db).2.Wf := by
  unfold recovered
  split
  · exact ⟨hd, ht⟩
  · refine ⟨Content.Wf.truncate _, ?_⟩
    generalize List.filter _ _ = pages
    induction pages using List.reverseRecOn with
    | nil => exact Content.Wf.truncate _
    | append_singleton pages pg ih => rw [List.foldl_append]; exact ih.writePage pg

/-- A second `PageDB::new` after a crash `j` operations into `batch`: the data file is recovered
once `batch` has synced it, and the table file once `batch` has synced it. -/
theorem durables_reopen_crashAfter_add {db : PageDb} (hs : Settled db)
    (hwf : (recovered db).1.Wf ∧ (recovered db).2.Wf)
    (hlen : (recovered db).1.len < 2 ^ 48 ∧ (recovered db).2.len < 2 ^ 48) (j : Nat) :
    durables (reopen (crashAfter db ((recoverSteps db.log.current).length + j))) =
      (if j < 2 then db.data.durable else (recovered db).1,
        if j < 4 then db.table.durable else (recovered db).2) := by
  rw [crashAfter_recoverSteps_add hs]
  rcases Nat.lt_or_ge j 8 with hj | hj
  · rw [if_pos hj]
    exact durables_reopen_of_log_nil _ _
  · simp only [show ¬ j < 2 by omega, show ¬ j < 4 by omega, hj.not_lt, if_false]
    exact durables_reopen_of_header hwf.1 hwf.2 hlen.1 hlen.2

/-! ## A database to open -/

/-- A database whose log holds the header `4096, 4096` and the pre-image of table page `0`: the data
file has a page at `4096` past the header's data length, and table page `0` has changed since its
pre-image was logged. -/
def crashExample : PageDb :=
  ⟨⟨⟨4096, fun o => if o = 0 then some ((Page.new 0).write 0 [0xBC, 0xDB, 1]) else none⟩, []⟩,
    ⟨⟨8192, fun o => if o = 0 then some ((Page.new 0).write 0 [0xBC, 0xDA])
      else if o = 4096 then some (Page.new 4096) else none⟩, []⟩,
    ⟨[header 4096 4096, (Page.new 0).write 0 [0xBC, 0xDB]], []⟩⟩

theorem crashExample_settled : Settled crashExample := ⟨rfl, rfl, rfl⟩

theorem read_new_write (bytes : List UInt8) (h : bytes.length ≤ PAGE_PAYLOAD_SIZE) (n : Nat) :
    ((Page.new 0).write 0 bytes).read 0 n =
      (bytes ++ List.replicate (PAGE_PAYLOAD_SIZE - bytes.length) 0).take n := by
  rw [Page.read, Page.write_payload, Page.new, splice_replicate_zero _ _ h, List.drop_zero]

theorem crashExample_checks : ChecksPass crashExample := by
  refine ⟨?_, ?_, ?_⟩
  · simp only [check, crashExample, if_true]
    rw [if_neg (by decide), read_new_write _ (by decide)]
    exact if_pos rfl
  · simp only [check, crashExample, if_true]
    rw [if_neg (by decide), read_new_write _ (by decide)]
    exact if_pos rfl
  · simp only [checkLog, crashExample, Page.read, header_payload]
    rfl

theorem crashExample_wf : crashExample.data.durable.Wf ∧ crashExample.table.durable.Wf := by
  refine ⟨fun o (ho : 8192 ≤ o) => ?_, fun o (ho : 4096 ≤ o) => ?_⟩ <;> dsimp only [crashExample]
  · rw [if_neg (by omega), if_neg (by omega)]
  · rw [if_neg (by omega)]

theorem crashExample_recoverSteps : (recoverSteps crashExample.log.current).length = 5 := by
  show (recoverSteps [header 4096 4096, (Page.new 0).write 0 [0xBC, 0xDB]]).length = 5
  simp only [recoverSteps, headerTableLen_header 4096 (by decide : 4096 < 2 ^ 48)]
  simp

theorem crashExample_recovered :
    recovered crashExample =
      (crashExample.data.durable.truncate 4096,
        crashExample.table.durable.truncate 4096 |>.writePage ((Page.new 0).write 0 [0xBC, 0xDB])) := by
  simp only [recovered, crashExample, headerDataLen_header 4096 (by decide : 4096 < 2 ^ 48),
    headerTableLen_header 4096 (by decide : 4096 < 2 ^ 48)]
  rfl

theorem crashExample_len :
    (recovered crashExample).1.len < 2 ^ 48 ∧ (recovered crashExample).2.len < 2 ^ 48 := by
  rw [crashExample_recovered]
  decide

/-! ## Crash safety -/

/-- A crash before `recover` syncs the log, or after `batch` has synced the table, and a second
`PageDB::new` leave the data and the table file as recovery should. -/
theorem crash_safe {db : PageDb} (hs : Settled db) (hc : ChecksPass db)
    (hwf : db.data.durable.Wf ∧ db.table.durable.Wf)
    (hlen : (recovered db).1.len < 2 ^ 48 ∧ (recovered db).2.len < 2 ^ 48) {k : Nat}
    (hk : k < (recoverSteps db.log.durable).length ∨ (recoverSteps db.log.durable).length + 4 ≤ k) :
    durables (reopen (crashAfter db k)) = recovered db := by
  rw [← Synced.current_of_pending_nil hs.2.2] at hk
  rcases hk with hk | hk
  · rw [crashAfter_before_log_sync hk, crash_of_settled hs, reopen, new_eq hs hc]
    exact new_recovered hs
  · obtain ⟨j, rfl⟩ := Nat.exists_eq_add_of_le hk
    rw [Nat.add_assoc, durables_reopen_crashAfter_add hs (recovered_wf hwf.1 hwf.2) hlen,
      if_neg (by omega), if_neg (by omega)]

theorem crash_safe_after_batch :
    durables (reopen (crashAfter crashExample 9)) = recovered crashExample :=
  crash_safe crashExample_settled crashExample_checks crashExample_wf crashExample_len
    (.inr (by rw [← Synced.current_of_pending_nil crashExample_settled.2.2, crashExample_recoverSteps]))

/-- `recover` syncs the emptied log before the truncations and the pre-images it has written are
synced: a crash right after that sync, or after `batch` has synced the data file but not the
table file, and a second `PageDB::new` leave the files other than recovery should. -/
theorem recover_crash_after_log_sync :
    new crashExample = .ok (exec crashExample (newSteps crashExample)) ∧
    durables (exec crashExample (newSteps crashExample)) = recovered crashExample ∧
    durables (reopen (crashAfter crashExample 5)) = durables crashExample ∧
    (durables crashExample).1.len = 8192 ∧ (recovered crashExample).1.len = 4096 ∧
    durables (reopen (crashAfter crashExample 7)) =
      ((recovered crashExample).1, crashExample.table.durable) ∧
    (crashExample.table.durable.page 0).map (Page.read · 0 3) = some [0xBC, 0xDB, 1] ∧
    ((recovered crashExample).2.page 0).map (Page.read · 0 3) = some [0xBC, 0xDB, 0] := by
  have hwf := recovered_wf crashExample_wf.1 crashExample_wf.2
  have hreopen := durables_reopen_crashAfter_add crashExample_settled hwf crashExample_len
  rw [crashExample_recoverSteps] at hreopen
  refine ⟨new_eq crashExample_settled crashExample_checks, new_recovered crashExample_settled,
    hreopen 0, rfl, ?_, hreopen 2, ?_, ?_⟩
  · rw [crashExample_recovered]; rfl
  · simp only [crashExample, if_true, Option.map_some']
    rw [read_new_write _ (by decide)]
    rfl
  · rw [crashExample_recovered]
    dsimp only [Content.writePage, Page.offset, Page.write_trailer, Page.new_trailer]
    rw [if_pos rfl, Option.map_some', read_new_write _ (by decide)]
    rfl

/-! ## Opening twice -/

/-- An uninterrupted `PageDB::new` leaves every file synced: the data and the table file as
recovery should, and the log holding only the header of their lengths. -/
theorem exec_newSteps {db : PageDb} (hs : Settled db) :
    exec db (newSteps db) = ⟨⟨(recovered db).2, []⟩, ⟨(recovered db).1, []⟩,
      ⟨[header (recovered db).1.len (recovered db).2.len], []⟩⟩ := by
  obtain ⟨hcur, hlog⟩ := exec_recoverSteps_settled hs
  rw [newSteps, exec_append, exec_batchSteps, hlog, ← hcur]
  rfl

/-- Opening the database twice in a row leaves the data and the table file as opening it once.
The second `PageDB::new` finds the log holding only the header of the files' own lengths. -/
theorem reopen_reopen {db : PageDb} (hs : Settled db) (hwf : db.data.durable.Wf ∧ db.table.durable.Wf)
    (hlen : (recovered db).1.len < 2 ^ 48 ∧ (recovered db).2.len < 2 ^ 48) :
    durables (reopen (reopen db)) = durables (reopen db) := by
  rcases h : new db with _ | db'
  · have hr : reopen db = db := by rw [reopen, h]
    rw [hr, hr]
  · have hr : reopen db = db' := by rw [reopen, h]
    have hwf' := recovered_wf hwf.1 hwf.2
    rw [hr, new_ok h, exec_newSteps hs, durables_reopen_of_header hwf'.1 hwf'.2 hlen.1 hlen.2]
    rfl

theorem reopen_reopen_crashExample :
    Settled crashExample ∧ (crashExample.data.durable.Wf ∧ crashExample.table.durable.Wf) ∧
      ((recovered crashExample).1.len < 2 ^ 48 ∧ (recovered crashExample).2.len < 2 ^ 48) ∧
      durables (reopen (reopen crashExample)) = durables (reopen crashExample) :=
  ⟨crashExample_settled, crashExample_wf, crashExample_len,
    reopen_reopen crashExample_settled crashExample_wf crashExample_len⟩

end PageDb

end Hammersbald
