import Mathlib.Data.Prod.Lex
import Collector.Lib.LookAheadScan
import Collector.Persistence.Mongo.ReceiptReplay

/-!
The receipts page by page, in the order of `(committed_at, _id)`. The cursor of a page is the
time and the id of its last document; a document is read once however many receipts share its
time, and whatever is inserted between two pages.
-/

namespace Collector.Persistence.Mongo
open Collector.Lib Collector.Lib.Native
open Projection (Codec)

/-- `(committed_at, _id)` of a document; the tuples are compared as in the query. -/
abbrev ReceiptCursor := Int ×ₗ Uuid

/-- `MAX_PAGE_SIZE`. -/
def maxPageSize : Int := 1000

section Model
variable (word : Char → Bool) (codec : Codec)

/-- A document of `applied_projection_receipts`: some receipt was written as it. -/
structure StoredReceipt where
  document : Fields
  source : ∃ receipt : ReceiptModel word codec, (receiptToDocument receipt).stored = some document

inductive ListError where
  /-- `ValueError` about the limit. -/
  | limit
  /-- A document is no receipt. -/
  | invalidDocument
  deriving DecidableEq, Repr

structure ReceiptPage where
  items : List (ReceiptModel word codec)
  nextAfter : Option ReceiptCursor

variable {word codec}

def StoredReceipt.committedAt (row : StoredReceipt word codec) : Time :=
  (row.document.required "committed_at" asInstant).getD 0

def StoredReceipt.id (row : StoredReceipt word codec) : Uuid :=
  (row.document.required "_id" asUuid).getD 0

def StoredReceipt.cursor (row : StoredReceipt word codec) : ReceiptCursor :=
  toLex (row.committedAt, row.id)

variable (word codec) in
/-- The collection; `_id` is unique. -/
abbrev ReceiptCollection := Table (@StoredReceipt.id word codec)

/-- The `$or` of the query. Its instant goes to the server in whole milliseconds. -/
def matchesAfter (after : ReceiptCursor) (row : StoredReceipt word codec) : Bool :=
  let committedAt := (ofLex after).1 / 1000 * 1000
  decide (committedAt < row.committedAt) ||
    (decide (row.committedAt = committedAt) && decide ((ofLex after).2 < row.id))

/-- The sort by `committed_at` and `_id`. -/
def InOrder (row other : StoredReceipt word codec) : Prop :=
  row.committedAt < other.committedAt ∨
    (row.committedAt = other.committedAt ∧ row.id ≤ other.id)

instance : DecidableRel (@InOrder word codec) := fun row other =>
  inferInstanceAs (Decidable (row.committedAt < other.committedAt ∨
    (row.committedAt = other.committedAt ∧ row.id ≤ other.id)))

def listReceipts (receipts : ReceiptCollection word codec) (after : Option ReceiptCursor)
    (limit : Int) : Except ListError (ReceiptPage word codec) := do
  if 1 ≤ limit ∧ limit ≤ maxPageSize then
    let query := fun row => after.all fun cursor => matchesAfter cursor row
    let documents := receipts.select query InOrder (limit.toNat + 1)
    let hasMore := decide (limit.toNat < documents.length)
    let page := documents.take limit.toNat
    let nextAfter := if hasMore then page.getLast?.map StoredReceipt.cursor else none
    match page.mapM fun row => receiptFromDocument word codec row.document with
    | none => throw .invalidDocument
    | some items => return { items, nextAfter }
  else
    throw .limit

end Model

section Documents
variable {word : Char → Bool} {codec : Codec}

/-- A stored document is read as a receipt that has its time, in whole milliseconds, and its id. -/
theorem StoredReceipt.reads (row : StoredReceipt word codec) :
    ∃ receipt, receiptFromDocument word codec row.document = some receipt ∧
      row.committedAt = receipt.committedAt ∧ row.id = receipt.projectionTaskId ∧
      receipt.committedAt / 1000 * 1000 = receipt.committedAt := by
  obtain ⟨receipt, kept⟩ := row.source
  have written : row.document = ("_id", .uuid receipt.projectionTaskId) :: receipt.dump.kept :=
    eq_cutFields_of_stored kept
  refine ⟨receipt.cut, receiptFromDocument_stored kept, ?_, ?_, ?_⟩
  · have instant : receipt.dump.kept.required "committed_at" asInstant =
        some (receipt.committedAt / 1000 * 1000) :=
      required_kept (v := .instant receipt.committedAt) (dump_distinct receipt) rfl rfl _
    have same : row.document.required "committed_at" asInstant =
        receipt.dump.kept.required "committed_at" asInstant := by
      rw [written]
      rfl
    rw [StoredReceipt.committedAt, same, instant]
    rfl
  · rw [StoredReceipt.id, written]
    rfl
  · change receipt.committedAt / 1000 * 1000 / 1000 * 1000 = receipt.committedAt / 1000 * 1000
    rw [Int.mul_ediv_cancel _ (by decide)]

/-- The receipt in a document. -/
def StoredReceipt.receipt (row : StoredReceipt word codec) : ReceiptModel word codec :=
  (receiptFromDocument word codec row.document).get
    (Option.isSome_iff_exists.mpr (row.reads.imp fun _ found => found.1))

theorem StoredReceipt.read (row : StoredReceipt word codec) :
    receiptFromDocument word codec row.document = some row.receipt :=
  (Option.some_get _).symm

/-- The cursor that names a receipt. -/
def cursorOf (receipt : ReceiptModel word codec) : ReceiptCursor :=
  toLex (receipt.committedAt, receipt.projectionTaskId)

/-- The time of a cursor is in whole milliseconds. -/
def Whole (cursor : ReceiptCursor) : Prop := (ofLex cursor).1 / 1000 * 1000 = (ofLex cursor).1

theorem cursorOf_receipt (row : StoredReceipt word codec) :
    cursorOf row.receipt = row.cursor ∧ Whole row.cursor ∧
      row.receipt.projectionTaskId = row.id := by
  obtain ⟨receipt, reads, time, id, whole⟩ := row.reads
  cases row.read.symm.trans reads
  rw [StoredReceipt.cursor, time, id]
  exact ⟨rfl, whole, rfl⟩

theorem matchesAfter_iff {after : ReceiptCursor} (whole : Whole after)
    (row : StoredReceipt word codec) : matchesAfter after row = true ↔ after < row.cursor := by
  rw [matchesAfter, whole, Bool.or_eq_true, Bool.and_eq_true, decide_eq_true_eq, decide_eq_true_eq,
    decide_eq_true_eq, Prod.Lex.lt_iff, eq_comm]
  rfl

theorem inOrder_iff (row other : StoredReceipt word codec) :
    InOrder row other ↔ row.cursor ≤ other.cursor := by
  rw [Prod.Lex.le_iff]
  rfl

instance : IsTrans (StoredReceipt word codec) InOrder where
  trans row other third before after := by
    rw [inOrder_iff] at *
    exact before.trans after

instance : Std.Total (@InOrder word codec) where
  total row other := by
    rw [inOrder_iff, inOrder_iff]
    exact le_total _ _

end Documents

section Pages
variable {word : Char → Bool} {codec : Codec} {limit : Int}

/-- One call that answered. -/
def Answers (limit : Int) (receipts : ReceiptCollection word codec) (after : Option ReceiptCursor)
    (items : List (ReceiptModel word codec)) (next : Option ReceiptCursor) : Prop :=
  listReceipts receipts after limit = .ok ⟨items, next⟩

/-- Documents may have been inserted. -/
def Inserted (receipts later : ReceiptCollection word codec) : Prop := receipts.rows ⊆ later.rows

/-- The receipts of the collection. -/
def contents (receipts : ReceiptCollection word codec) : List (ReceiptModel word codec) :=
  receipts.rows.map StoredReceipt.receipt

theorem mapM_read (rows : List (StoredReceipt word codec)) :
    (rows.mapM fun row => receiptFromDocument word codec row.document) =
      some (rows.map StoredReceipt.receipt) := by
  induction rows with
  | nil => rfl
  | cons row rows ih =>
    rw [List.mapM_cons, row.read, ih]
    rfl

/-- With a limit in range the call answers with the receipts of the rows that it shows. -/
theorem answers (lower : 1 ≤ limit) (upper : limit ≤ maxPageSize)
    (receipts : ReceiptCollection word codec) (after : Option ReceiptCursor) :
    let found := receipts.select (fun row => after.all fun cursor => matchesAfter cursor row) InOrder
      (limit.toNat + 1)
    Answers limit receipts after
      ((lookAhead StoredReceipt.cursor limit.toNat found).1.map StoredReceipt.receipt)
      (lookAhead StoredReceipt.cursor limit.toNat found).2 := by
  intro found
  rw [Answers, listReceipts, if_pos ⟨lower, upper⟩]
  dsimp only
  rw [mapM_read]
  simp only [lookAhead, decide_eq_true_eq]
  rfl

/-- What the call answers is a page of the receipts in the collection. -/
theorem peekPage_of_answers (lower : 1 ≤ limit) (upper : limit ≤ maxPageSize)
    {receipts : ReceiptCollection word codec} {after : Option ReceiptCursor}
    {items : List (ReceiptModel word codec)} {next : Option ReceiptCursor}
    (whole : ∀ cursor ∈ after, Whole cursor) (answered : Answers limit receipts after items next) :
    PeekPage cursorOf (contents receipts) after items next ∧ ∀ cursor ∈ next, Whole cursor := by
  have known := answers lower upper receipts after
  obtain ⟨rfl, rfl⟩ : _ ∧ _ := by
    have same := Except.ok.inj (answered.symm.trans known)
    exact ReceiptPage.mk.inj same
  have apart : ∀ row ∈ receipts.rows, ∀ other ∈ receipts.rows, row.cursor = other.cursor →
      row = other := by
    intro row present other also same
    exact receipts.eq_of_key_eq present also (congrArg (fun cursor => (ofLex cursor).2) same)
  have members : ∀ row, row ∈ (receipts.rows.filter fun row =>
      after.all fun cursor => matchesAfter cursor row).insertionSort InOrder ↔
        row ∈ receipts.rows ∧ Beyond after row.cursor := by
    intro row
    rw [List.mem_insertionSort, List.mem_filter]
    cases after with
    | none => simp [Beyond]
    | some cursor => simp [Beyond, matchesAfter_iff (whole cursor rfl)]
  have order : ((receipts.rows.filter fun row =>
      after.all fun cursor => matchesAfter cursor row).insertionSort InOrder).Pairwise
        fun row other => row.cursor < other.cursor := by
    have distinct : ((receipts.rows.filter fun row =>
        after.all fun cursor => matchesAfter cursor row).insertionSort InOrder).Nodup := by
      rw [(List.perm_insertionSort _ _).nodup_iff]
      exact receipts.nodup.of_map.filter _
    refine ((List.pairwise_insertionSort InOrder _).and distinct).imp_of_mem ?_
    rintro row other present also ⟨before, different⟩
    apply lt_of_le_of_ne ((inOrder_iff row other).mp before)
    intro same
    exact different (apart row ((members row).mp present).1 other ((members other).mp also).1 same)
  have positive : 0 < limit.toNat := by omega
  have shows := peekPage_of_sorted positive members order
  refine ⟨shows.map fun row => (cursorOf_receipt row).1, ?_⟩
  intro cursor given
  obtain ⟨⟨row, _, rfl⟩, _⟩ := shows.handed cursor given
  exact (cursorOf_receipt row).2.1

/-- The cursor as it goes to the server. -/
def sent (cursor : ReceiptCursor) : ReceiptCursor :=
  toLex ((ofLex cursor).1 / 1000 * 1000, (ofLex cursor).2)

theorem whole_sent (cursor : ReceiptCursor) : Whole (sent cursor) := by
  change (ofLex cursor).1 / 1000 * 1000 / 1000 * 1000 = (ofLex cursor).1 / 1000 * 1000
  rw [Int.mul_ediv_cancel _ (by decide)]

/-- Only what is sent of the cursor counts. -/
theorem listReceipts_sent (receipts : ReceiptCollection word codec) (after : Option ReceiptCursor) :
    listReceipts receipts (after.map sent) limit = listReceipts receipts after limit := by
  have same : (fun row : StoredReceipt word codec =>
      (after.map sent).all fun cursor => matchesAfter cursor row) =
        fun row => after.all fun cursor => matchesAfter cursor row := by
    funext row
    cases after with
    | none => rfl
    | some cursor =>
      simp only [Option.map_some, Option.all_some, matchesAfter]
      rw [show (ofLex (sent cursor)).1 / 1000 * 1000 = (ofLex cursor).1 / 1000 * 1000 from
        whole_sent cursor]
      rfl
  rw [listReceipts, listReceipts, same]

/-- A page without a cursor shows all that is beyond the one it was asked with. -/
theorem last_page_complete (lower : 1 ≤ limit) (upper : limit ≤ maxPageSize)
    {receipts : ReceiptCollection word codec} {after : Option ReceiptCursor}
    {items : List (ReceiptModel word codec)} (answered : Answers limit receipts after items none)
    {row : StoredReceipt word codec} (present : row ∈ receipts.rows)
    (ahead : Beyond after row.cursor) : row.receipt ∈ items := by
  have answered' : Answers limit receipts (after.map sent) items none := by
    rw [Answers, listReceipts_sent]
    exact answered
  have whole : ∀ cursor ∈ after.map sent, Whole cursor := by
    intro cursor given
    obtain ⟨original, _, rfl⟩ := Option.map_eq_some_iff.mp given
    exact whole_sent original
  have reached : Beyond (after.map sent) (cursorOf row.receipt) := by
    intro cursor given
    obtain ⟨original, known, rfl⟩ := Option.map_eq_some_iff.mp given
    rw [(cursorOf_receipt row).1]
    refine lt_of_le_of_lt ?_ (ahead original known)
    rw [Prod.Lex.le_iff]
    have earlier : (ofLex original).1 / 1000 * 1000 ≤ (ofLex original).1 :=
      Int.ediv_mul_le _ (by decide)
    rcases earlier.lt_or_eq with less | same
    · exact .inl less
    · exact .inr ⟨same, le_refl _⟩
  rcases (peekPage_of_answers lower upper whole answered').1.cut row.receipt
    (List.mem_map_of_mem present) reached with shown | ⟨_, given, _⟩
  · exact shown
  · cases given

/-- A reader that follows the cursors until there is none has been shown every receipt that was
there when it began, in order and each once. A page without a cursor leaves nothing after it, no
call fails, and a reader behind whom nothing is inserted any more comes to an end. -/
theorem receipt_pages_exact (lower : 1 ≤ limit) (upper : limit ≤ maxPageSize) :
    (∀ (start final : ReceiptCollection word codec) (pages : List (List (ReceiptModel word codec))),
      PeekScan Inserted (Answers limit) start none pages final →
        (∀ row ∈ start.rows, row.receipt ∈ pages.flatten) ∧
        (pages.flatten.map fun receipt => receipt.projectionTaskId).Nodup ∧
        (pages.flatten.Pairwise fun receipt other => cursorOf receipt < cursorOf other) ∧
        ∀ receipt ∈ pages.flatten, ∃ row ∈ final.rows, row.receipt = receipt) ∧
    (∀ (receipts : ReceiptCollection word codec) (after : Option ReceiptCursor)
      (items : List (ReceiptModel word codec)), Answers limit receipts after items none →
        ∀ row ∈ receipts.rows, Beyond after row.cursor → row.receipt ∈ items) ∧
    (∀ (receipts : ReceiptCollection word codec) (after : Option ReceiptCursor),
      ∃ items next, Answers limit receipts after items next) ∧
    ∀ (receipts : ReceiptCollection word codec) (after : Option ReceiptCursor),
      (∀ cursor ∈ after, Whole cursor) →
        ∃ pages, PeekScan Inserted (Answers limit) receipts after pages receipts := by
  have paged : ∀ (receipts : ReceiptCollection word codec) after items next,
      (∀ cursor ∈ after, Whole cursor) → Answers limit receipts after items next →
        PeekPage cursorOf (contents receipts) after items next ∧ ∀ cursor ∈ next, Whole cursor :=
    fun _ _ _ _ whole answered => peekPage_of_answers lower upper whole answered
  refine ⟨?_, ?_, ?_, ?_⟩
  · intro start final pages scan
    obtain ⟨_, order, sound, complete⟩ := scan.shows contents Whole paged
      (fun _ _ inserted => List.map_subset _ inserted) (by simp)
    have sources : ∀ receipt ∈ pages.flatten, ∃ row ∈ final.rows, row.receipt = receipt :=
      fun receipt member => List.mem_map.mp (sound receipt member).1
    refine ⟨?_, ?_, order, sources⟩
    · intro row present
      exact complete row.receipt (List.mem_map_of_mem present) (by simp [Beyond])
    · have distinct : pages.flatten.Nodup :=
        order.imp fun below same => below.ne (congrArg cursorOf same)
      refine distinct.map_on ?_
      intro receipt member other also same
      obtain ⟨row, present, rfl⟩ := sources receipt member
      obtain ⟨row', present', rfl⟩ := sources other also
      rw [(cursorOf_receipt row).2.2, (cursorOf_receipt row').2.2] at same
      rw [final.eq_of_key_eq present present' same]
  · intro receipts after items answered row present ahead
    exact last_page_complete lower upper answered present ahead
  · intro receipts after
    exact ⟨_, _, answers lower upper receipts after⟩
  · intro receipts after whole
    exact PeekScan.exists_of_still contents Whole paged
      (fun after => ⟨_, _, answers lower upper receipts after⟩) (List.Subset.refl _) whole

end Pages

namespace Sample

/-- The document of the first receipt. -/
def preciseRow : StoredReceipt isWord Projection.Sample.codec where
  document := cutFields (receiptToDocument precise)
  source := by
    have storable : (receiptToDocument precise).stored.isSome := by decide +kernel
    obtain ⟨document, kept⟩ := Option.isSome_iff_exists.mp storable
    exact ⟨precise, eq_cutFields_of_stored kept ▸ kept⟩

def onlyPrecise : ReceiptCollection isWord Projection.Sample.codec :=
  (∅ : ReceiptCollection isWord Projection.Sample.codec).insert preciseRow

end Sample

theorem receipt_pages_exact_precise :
    ∃ pages, PeekScan Inserted (Answers 1) Sample.onlyPrecise none pages Sample.onlyPrecise ∧
      Sample.preciseRow.receipt ∈ pages.flatten := by
  have exact_pages := @receipt_pages_exact Sample.isWord Projection.Sample.codec 1 (by decide)
    (by decide)
  obtain ⟨pages, scan⟩ := exact_pages.2.2.2 Sample.onlyPrecise none (by simp)
  have present : Sample.preciseRow ∈ Sample.onlyPrecise.rows := by
    rw [Sample.onlyPrecise, Table.rows_insert _ _ (by simp [Table.keys])]
    simp
  exact ⟨pages, scan, (exact_pages.1 _ _ pages scan).1 Sample.preciseRow present⟩

end Collector.Persistence.Mongo
