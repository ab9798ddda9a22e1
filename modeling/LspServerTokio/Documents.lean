import LspServerTokio.Foundation.Runs
import LspServerTokio.Foundation.Table
import LspServerTokio.Message
import LspServerTokio.Positions

namespace LspServerTokio.FormatterServer

open Foundation Foundation.Text Foundation.Lines

structure Range where
  start : Position
  «end» : Position

structure TextEdit where
  range : Range
  newText : List Char

structure TextDocumentContentChangeEvent where
  range : Option Range
  text : List Char

/-- An open document. -/
structure DocumentState where
  content : List Char
  version : I32

section Params

variable (υ : Type)

structure TextDocumentItem where
  uri : υ
  version : I32
  text : List Char

structure VersionedTextDocumentIdentifier where
  uri : υ
  version : I32

structure TextDocumentIdentifier where
  uri : υ

structure DidOpenTextDocumentParams where
  textDocument : TextDocumentItem υ

structure DidChangeTextDocumentParams where
  textDocument : VersionedTextDocumentIdentifier υ
  contentChanges : List TextDocumentContentChangeEvent

structure DidCloseTextDocumentParams where
  textDocument : TextDocumentIdentifier υ

/-- What `serde_json::from_value` reads as the types of `lsp_types`, whose documents have names of
type `υ`. -/
structure NotificationParams where
  didOpen : Value → Option (DidOpenTextDocumentParams υ)
  didChange : Value → Option (DidChangeTextDocumentParams υ)
  didClose : Value → Option (DidCloseTextDocumentParams υ)

structure ServerState where
  documents : Table υ DocumentState

end Params

variable {υ : Type} [DecidableEq υ]

def ServerState.new : ServerState υ := ⟨.empty⟩

/-- The loop body of `apply_incremental_changes`. -/
def applyIncrementalChange (content : List Char) (change : TextDocumentContentChangeEvent) :
    Except TextPanic (List Char) :=
  match change.range with
  | some range => do
    let startOffset ← positionToOffset content range.start
    let endOffset ← positionToOffset content range.end
    if startOffset ≤ endOffset ∧ endOffset ≤ (utf8Bytes content).length then
      match sliceUpTo startOffset content, sliceFrom endOffset content with
      | some front, some back => return front ++ change.text ++ back
      | _, _ => throw .strSlice
    else return content
  | none => .ok change.text

def applyIncrementalChanges (doc : DocumentState) (changes : List TextDocumentContentChangeEvent) :
    Except TextPanic DocumentState := do
  let content ← changes.foldlM applyIncrementalChange doc.content
  return { doc with content }

/-- The standard library writes each character in upper case for itself, as one or more. -/
def createUppercaseEdit (toUppercase : Char → List Char) (content : List Char) :
    Except TextPanic (List TextEdit) :=
  if content = [] then .ok []
  else do
    let range := ⟨⟨0, 0⟩, ← endPositionUtf16 content⟩
    return [⟨range, content.flatMap toUppercase⟩]

def parseNotificationParams {α : Type} (fromValue : Value → Option α) (notif : Notification) :
    Option α := notif.params.bind fromValue

def handleNotification (params : NotificationParams υ) (state : ServerState υ)
    (notif : Notification) : Except TextPanic (ServerState υ) :=
  match notif.method with
  | "textDocument/didOpen" =>
    match parseNotificationParams params.didOpen notif with
    | some ⟨doc⟩ => .ok ⟨state.documents.insert doc.uri ⟨doc.text, doc.version⟩⟩
    | none => .ok state
  | "textDocument/didChange" =>
    match parseNotificationParams params.didChange notif with
    | some ⟨id, contentChanges⟩ =>
      match state.documents id.uri with
      | some doc => do
        let doc ← applyIncrementalChanges doc contentChanges
        return ⟨state.documents.insert id.uri { doc with version := id.version }⟩
      | none => .ok state
    | none => .ok state
  | "textDocument/didClose" =>
    match parseNotificationParams params.didClose notif with
    | some ⟨doc⟩ => .ok ⟨state.documents.remove doc.uri⟩
    | none => .ok state
  | "initialized" => .ok state
  | _ => .ok state

section Changes

variable {content : List Char}

theorem sliceUpTo_frontOf (p : TextPlace) (content : List Char) :
    sliceUpTo (utf8Bytes (frontOf p content)).length content = some (frontOf p content) := by
  have h := sliceUpTo_utf8Bytes (frontOf p content) (restOf p content)
  rwa [frontOf_append_restOf] at h

theorem sliceFrom_frontOf (p : TextPlace) (content : List Char) :
    sliceFrom (utf8Bytes (frontOf p content)).length content = some (restOf p content) := by
  have h := sliceFrom_utf8Bytes (frontOf p content) (restOf p content)
  rwa [frontOf_append_restOf] at h

/-- What a change makes of a text. -/
def TextDocumentContentChangeEvent.apply (change : TextDocumentContentChangeEvent)
    (content : List Char) : List Char :=
  match change.range with
  | some range => edit range.start.place range.end.place change.text content
  | none => change.text

theorem applyIncrementalChange_eq (h : (utf8Bytes content).length < 2 ^ 32)
    (change : TextDocumentContentChangeEvent) :
    applyIncrementalChange content change = .ok (change.apply content) := by
  rcases change with ⟨_ | ⟨start, stop⟩, new⟩
  · rfl
  · have hstop := byteLength_append (frontOf stop.place content) (restOf stop.place content)
    rw [frontOf_append_restOf] at hstop
    have hguard : (utf8Bytes (frontOf start.place content)).length ≤
          (utf8Bytes (frontOf stop.place content)).length ∧
        (utf8Bytes (frontOf stop.place content)).length ≤ (utf8Bytes content).length ↔
        frontOf start.place content <+: frontOf stop.place content := by
      rw [byteLength_le_iff (frontOf_isPrefix _ content) (frontOf_isPrefix _ content)]
      exact and_iff_left (by omega)
    simp only [applyIncrementalChange, TextDocumentContentChangeEvent.apply, edit,
      positionToOffset_eq h]
    split_ifs with hp
    · refine (if_pos (hguard.mpr hp)).trans ?_
      rw [sliceUpTo_frontOf, sliceFrom_frontOf]
      rfl
    · exact if_neg (mt hguard.mp hp)

/-- A change with a range replaces what lies between the offsets of its two positions, if they are in
order, and otherwise does nothing. Positions in order have offsets in order. -/
theorem applyIncrementalChange_exact (h : (utf8Bytes content).length < 2 ^ 32) (range : Range)
    (new : List Char) :
    ∃ i j, positionToOffset content range.start = .ok i ∧ positionToOffset content range.end = .ok j ∧
      (range.start.place ≤ range.end.place → i ≤ j) ∧
      (j < i ∧ applyIncrementalChange content ⟨some range, new⟩ = .ok content ∨
        ∃ a b c, content = a ++ b ++ c ∧ (utf8Bytes a).length = i ∧ (utf8Bytes (a ++ b)).length = j ∧
          applyIncrementalChange content ⟨some range, new⟩ = .ok (a ++ new ++ c)) := by
  have hle := byteLength_le_iff (frontOf_isPrefix range.start.place content)
    (frontOf_isPrefix range.end.place content)
  refine ⟨_, _, positionToOffset_eq h _, positionToOffset_eq h _,
    fun horder ↦ hle.mpr (frontOf_mono horder content), ?_⟩
  simp only [applyIncrementalChange_eq h, TextDocumentContentChangeEvent.apply, edit]
  split_ifs with hp
  · obtain ⟨b, hb⟩ := hp
    refine .inr ⟨_, b, restOf range.end.place content, ?_, rfl, by rw [hb], rfl⟩
    rw [hb, frontOf_append_restOf]
  · exact .inl ⟨Nat.not_le.mp (mt hle.mp hp), rfl⟩

theorem applyIncrementalChange_exact_crlf :
    ∃ i j, positionToOffset crlfText ⟨0, ⟨1, by decide⟩⟩ = .ok i ∧
      positionToOffset crlfText ⟨⟨1, by decide⟩, 0⟩ = .ok j ∧ i ≤ j := by
  obtain ⟨i, j, hi, hj, horder, -⟩ := @applyIncrementalChange_exact crlfText (by decide)
    ⟨⟨0, ⟨1, by decide⟩⟩, ⟨⟨1, by decide⟩, 0⟩⟩ ['c']
  exact ⟨i, j, hi, hj, horder (TextPlace.le_iff.mpr (.inl Nat.zero_lt_one))⟩

theorem byteLength_apply_le (change : TextDocumentContentChangeEvent) (content : List Char) :
    (utf8Bytes (change.apply content)).length ≤
      (utf8Bytes content).length + (utf8Bytes change.text).length := by
  rcases change with ⟨_ | ⟨start, stop⟩, new⟩
  · exact Nat.le_add_left _ _
  · simp only [TextDocumentContentChangeEvent.apply, edit]
    split_ifs with hp
    · have hfront := (byteLength_le_iff (frontOf_isPrefix _ content) (frontOf_isPrefix _ content)).mpr hp
      have hlen := byteLength_append (frontOf stop.place content) (restOf stop.place content)
      rw [frontOf_append_restOf] at hlen
      rw [byteLength_append, byteLength_append]
      omega
    · exact Nat.le_add_right _ _

/-- As long as the text stays small enough, the changes are applied one after the other. -/
theorem foldlM_applyIncrementalChange {changes : List TextDocumentContentChangeEvent} {bound : ℕ}
    (h : (utf8Bytes content).length ≤ bound)
    (hmax : bound + (changes.map fun change ↦ (utf8Bytes change.text).length).sum < 2 ^ 32) :
    let content' := changes.foldl (fun content change ↦ change.apply content) content
    changes.foldlM applyIncrementalChange content = .ok content' ∧ (utf8Bytes content').length ≤
      bound + (changes.map fun change ↦ (utf8Bytes change.text).length).sum := by
  refine foldlM_eq_foldl (I := fun content left ↦ (utf8Bytes content).length +
    (left.map fun change ↦ (utf8Bytes change.text).length).sum ≤
      bound + (changes.map fun change ↦ (utf8Bytes change.text).length).sum) ?_
    (Nat.add_le_add_right h _)
  intro content change left hleft
  rw [List.map_cons, List.sum_cons] at hleft
  have hle := byteLength_apply_le change content
  exact ⟨applyIncrementalChange_eq (by omega) change, by omega⟩

/-- Sent back as a change, the edit turns the text into upper case. -/
theorem createUppercaseEdit_applied (toUppercase : Char → List Char) (doc : DocumentState)
    (h : (utf8Bytes doc.content).length < 2 ^ 32) :
    ∃ edits, createUppercaseEdit toUppercase doc.content = .ok edits ∧
      applyIncrementalChanges doc (edits.map fun edit ↦ ⟨some edit.range, edit.newText⟩) =
        .ok { doc with content := doc.content.flatMap toUppercase } := by
  obtain ⟨content, version⟩ := doc
  rcases content with _ | ⟨c, cs⟩
  · exact ⟨[], rfl, rfl⟩
  · obtain ⟨p, hp, hplace⟩ := endPositionUtf16_eq h
    refine ⟨[⟨⟨⟨0, 0⟩, p⟩, (c :: cs).flatMap toUppercase⟩], ?_, ?_⟩
    · simp only [createUppercaseEdit, if_neg (List.cons_ne_nil c cs), hp]
      rfl
    · have hwhole := edit_endOf (a := []) (b := c :: cs) (c := []) (not_splitsBreak_nil _)
        (fun hs ↦ nomatch hs.2) ((c :: cs).flatMap toUppercase)
      rw [List.append_nil, List.append_nil, List.nil_append, List.nil_append] at hwhole
      have hchange := applyIncrementalChange_eq h
        ⟨some ⟨⟨0, 0⟩, p⟩, (c :: cs).flatMap toUppercase⟩
      simp only [TextDocumentContentChangeEvent.apply, hplace] at hchange
      rw [show (⟨0, 0⟩ : Position).place = endOf [] from rfl, hwhole] at hchange
      simp only [applyIncrementalChanges, List.map_cons, List.map_nil, List.foldlM_cons, hchange]
      rfl

end Changes

section Notifications

/-- What a notification does to the documents, if anything. -/
inductive DocumentOp (υ : Type)
  | didOpen (doc : TextDocumentItem υ)
  | didChange (id : VersionedTextDocumentIdentifier υ)
      (contentChanges : List TextDocumentContentChangeEvent)
  | didClose (doc : TextDocumentIdentifier υ)

def documentOp (params : NotificationParams υ) (notif : Notification) : Option (DocumentOp υ) :=
  match notif.method with
  | "textDocument/didOpen" =>
    (parseNotificationParams params.didOpen notif).map fun p ↦ .didOpen p.textDocument
  | "textDocument/didChange" =>
    (parseNotificationParams params.didChange notif).map fun p ↦
      .didChange p.textDocument p.contentChanges
  | "textDocument/didClose" =>
    (parseNotificationParams params.didClose notif).map fun p ↦ .didClose p.textDocument
  | _ => none

namespace DocumentOp

def apply (documents : Table υ DocumentState) : DocumentOp υ → Table υ DocumentState
  | didOpen doc => documents.insert doc.uri ⟨doc.text, doc.version⟩
  | didChange id contentChanges =>
    match documents id.uri with
    | some doc => documents.insert id.uri
        ⟨contentChanges.foldl (fun content change ↦ change.apply content) doc.content, id.version⟩
    | none => documents
  | didClose doc => documents.remove doc.uri

/-- `handle_notification`, once the parameters have been read. -/
def handle (state : ServerState υ) : DocumentOp υ → Except TextPanic (ServerState υ)
  | didChange id contentChanges =>
    match state.documents id.uri with
    | some doc => do
      let doc ← applyIncrementalChanges doc contentChanges
      return ⟨state.documents.insert id.uri { doc with version := id.version }⟩
    | none => .ok state
  | op => .ok ⟨op.apply state.documents⟩

/-- The bytes of the texts that it brings. -/
def byteLength : DocumentOp υ → ℕ
  | didOpen doc => (utf8Bytes doc.text).length
  | didChange _ contentChanges =>
    (contentChanges.map fun change ↦ (utf8Bytes change.text).length).sum
  | didClose _ => 0

end DocumentOp

variable (params : NotificationParams υ)

def byteLength (notif : Notification) : ℕ := (documentOp params notif).elim 0 DocumentOp.byteLength

/-- `handle_notification` on texts that are small enough. -/
def applied (state : ServerState υ) (notif : Notification) : ServerState υ :=
  (documentOp params notif).elim state fun op ↦ ⟨op.apply state.documents⟩

variable {params}

/-- No document has more than `bound` bytes. -/
def Within (bound : ℕ) (documents : Table υ DocumentState) : Prop :=
  ∀ uri doc, documents uri = some doc → (utf8Bytes doc.content).length ≤ bound

omit [DecidableEq υ] in
theorem within_new {bound : ℕ} : Within bound (.new : ServerState υ).documents := fun _ _ hdoc ↦ by
  cases hdoc

omit [DecidableEq υ] in
theorem Within.mono {bound bound' : ℕ} {documents : Table υ DocumentState} (h : Within bound documents)
    (hle : bound ≤ bound') : Within bound' documents := fun uri doc hdoc ↦ (h uri doc hdoc).trans hle

theorem Within.insert {bound : ℕ} {documents : Table υ DocumentState} (h : Within bound documents)
    {doc : DocumentState} (hdoc : (utf8Bytes doc.content).length ≤ bound) (uri : υ) :
    Within bound (documents.insert uri doc) := by
  intro other doc' hother
  rcases Table.insert_eq_some.mp hother with ⟨-, rfl⟩ | ⟨-, hother⟩
  · exact hdoc
  · exact h other doc' hother

/-- The operation goes well if each document leaves room for the texts that it brings. -/
theorem DocumentOp.handle_ok {state : ServerState υ} {op : DocumentOp υ}
    (h : ∀ uri doc, state.documents uri = some doc →
      (utf8Bytes doc.content).length + op.byteLength < 2 ^ 32) :
    op.handle state = .ok ⟨op.apply state.documents⟩ := by
  cases op with
  | didOpen | didClose => rfl
  | didChange id contentChanges =>
    rcases hdoc : state.documents id.uri with _ | doc
    · simp only [handle, apply, hdoc]
    · obtain ⟨hfold, -⟩ := foldlM_applyIncrementalChange (Nat.le_refl _) (h id.uri doc hdoc)
      simp only [handle, apply, hdoc, applyIncrementalChanges, hfold]
      rfl

theorem DocumentOp.within_apply {bound : ℕ} {documents : Table υ DocumentState}
    (h : Within bound documents) {op : DocumentOp υ} (hmax : bound + op.byteLength < 2 ^ 32) :
    Within (bound + op.byteLength) (op.apply documents) := by
  have hmono := h.mono (Nat.le_add_right bound op.byteLength)
  cases op with
  | didOpen doc => exact hmono.insert (Nat.le_add_left _ _) _
  | didChange id contentChanges =>
    rcases hdoc : documents id.uri with _ | doc
    · simpa only [apply, hdoc] using hmono
    · obtain ⟨-, hle⟩ := foldlM_applyIncrementalChange (h id.uri doc hdoc) hmax
      simp only [apply, hdoc]
      exact hmono.insert hle _
  | didClose doc => exact fun uri doc' hdoc ↦ hmono uri doc' (Table.remove_eq_some.mp hdoc).2

theorem handleNotification_op (state : ServerState υ) (notif : Notification) :
    handleNotification params state notif =
      (documentOp params notif).elim (.ok state) fun op ↦ op.handle state := by
  unfold handleNotification documentOp
  split
  · next h =>
    rw [h]
    rcases parseNotificationParams params.didOpen notif with _ | p <;> rfl
  · next h =>
    rw [h]
    rcases parseNotificationParams params.didChange notif with _ | p <;> rfl
  · next h =>
    rw [h]
    rcases parseNotificationParams params.didClose notif with _ | p <;> rfl
  · next h => rw [h]; rfl
  · simp_all

theorem handleNotification_ok {state : ServerState υ} {notif : Notification}
    (h : ∀ uri doc, state.documents uri = some doc →
      (utf8Bytes doc.content).length + byteLength params notif < 2 ^ 32) :
    handleNotification params state notif = .ok (applied params state notif) := by
  rw [handleNotification_op]
  unfold byteLength applied at *
  rcases hop : documentOp params notif with _ | op
  · rfl
  · rw [hop] at h
    exact op.handle_ok h

theorem handleNotification_eq {bound : ℕ} {state : ServerState υ} (h : Within bound state.documents)
    {notif : Notification} (hmax : bound + byteLength params notif < 2 ^ 32) :
    handleNotification params state notif = .ok (applied params state notif) ∧
      Within (bound + byteLength params notif) (applied params state notif).documents := by
  refine ⟨handleNotification_ok fun uri doc hdoc ↦ ?_, ?_⟩
  · exact (Nat.add_le_add_right (h uri doc hdoc) _).trans_lt hmax
  · unfold byteLength applied at *
    rcases hop : documentOp params notif with _ | op
    · exact h.mono (Nat.le_add_right _ _)
    · rw [hop] at hmax
      exact op.within_apply h hmax

theorem foldlM_handleNotification {notifs : List Notification}
    (h : (notifs.map (byteLength params)).sum < 2 ^ 32) :
    notifs.foldlM (handleNotification params) .new = .ok (notifs.foldl (applied params) .new) ∧
      Within (notifs.map (byteLength params)).sum (notifs.foldl (applied params) .new).documents := by
  obtain ⟨hfold, bound, hwithin, hbound⟩ := foldlM_eq_foldl
    (I := fun state left ↦ ∃ bound, Within bound state.documents ∧
      bound + (left.map (byteLength params)).sum = (notifs.map (byteLength params)).sum)
    (f := handleNotification params) (g := applied params) (s := .new)
    (fun {state notif left} hleft ↦ by
      obtain ⟨bound, hwithin, hbound⟩ := hleft
      rw [List.map_cons, List.sum_cons] at hbound
      obtain ⟨hstep, hwithin'⟩ : _ ∧ Within (bound + byteLength params notif) _ :=
        handleNotification_eq hwithin (by omega)
      exact ⟨hstep, _, hwithin', by omega⟩)
    ⟨0, within_new, Nat.zero_add _⟩
  exact ⟨hfold, hwithin.mono (by simpa using hbound.le)⟩

end Notifications

section Client

/-- A change says how a text becomes another one: a part between two cuts, none of them within a line
break, is replaced, or the whole text is. -/
inductive Describes : List Char → TextDocumentContentChangeEvent → List Char → Prop
  | replace {a b c new : List Char} {range : Range} : (utf8Bytes (a ++ b ++ c)).length < 2 ^ 32 →
      ¬ SplitsBreak a (b ++ c) → ¬ SplitsBreak (a ++ b) c →
      range.start.place = endOf a → range.end.place = endOf (a ++ b) →
      Describes (a ++ b ++ c) ⟨some range, new⟩ (a ++ new ++ c)
  | full {old new : List Char} : Describes old ⟨none, new⟩ new

inductive DescribeAll : List Char → List TextDocumentContentChangeEvent → List Char → Prop
  | nil {content : List Char} : DescribeAll content [] content
  | cons {content content' content'' : List Char} {change : TextDocumentContentChangeEvent}
      {changes : List TextDocumentContentChangeEvent} : Describes content change content' →
      DescribeAll content' changes content'' → DescribeAll content (change :: changes) content''

theorem Describes.applied {content content' : List Char} {change : TextDocumentContentChangeEvent}
    (h : Describes content change content') :
    applyIncrementalChange content change = .ok content' := by
  cases h with
  | replace hsize hab hbc hstart hend =>
    rw [applyIncrementalChange_eq hsize, TextDocumentContentChangeEvent.apply]
    simp only [hstart, hend, edit_endOf hab hbc]
  | full => rfl

theorem DescribeAll.applied {content content' : List Char}
    {changes : List TextDocumentContentChangeEvent} (h : DescribeAll content changes content') :
    changes.foldlM applyIncrementalChange content = .ok content' := by
  induction h with
  | nil => rfl
  | cons hchange _ ih =>
    rw [List.foldlM_cons, hchange.applied]
    exact ih

/-- What a client does with the documents that it has open, and what it tells the server. -/
inductive ClientStep (params : NotificationParams υ) :
    Table υ DocumentState → Notification → Table υ DocumentState → Prop
  | didOpen {documents : Table υ DocumentState} {notif : Notification} {doc : TextDocumentItem υ} :
      documentOp params notif = some (.didOpen doc) →
      ClientStep params documents notif (documents.insert doc.uri ⟨doc.text, doc.version⟩)
  | didChange {documents : Table υ DocumentState} {notif : Notification}
      {id : VersionedTextDocumentIdentifier υ}
      {contentChanges : List TextDocumentContentChangeEvent} {doc : DocumentState}
      {content : List Char} : documentOp params notif = some (.didChange id contentChanges) →
      documents id.uri = some doc → DescribeAll doc.content contentChanges content →
      ClientStep params documents notif (documents.insert id.uri ⟨content, id.version⟩)
  | didClose {documents : Table υ DocumentState} {notif : Notification}
      {doc : TextDocumentIdentifier υ} : documentOp params notif = some (.didClose doc) →
      ClientStep params documents notif (documents.remove doc.uri)
  | other {documents : Table υ DocumentState} {notif : Notification} :
      documentOp params notif = none → ClientStep params documents notif documents

inductive ClientRun (params : NotificationParams υ) :
    Table υ DocumentState → List Notification → Table υ DocumentState → Prop
  | nil {documents : Table υ DocumentState} : ClientRun params documents [] documents
  | cons {documents documents' documents'' : Table υ DocumentState} {notif : Notification}
      {notifs : List Notification} : ClientStep params documents notif documents' →
      ClientRun params documents' notifs documents'' →
      ClientRun params documents (notif :: notifs) documents''

theorem ClientStep.synchronized {params : NotificationParams υ}
    {documents documents' : Table υ DocumentState} {notif : Notification}
    (h : ClientStep params documents notif documents') :
    handleNotification params ⟨documents⟩ notif = .ok ⟨documents'⟩ := by
  rw [handleNotification_op]
  cases h with
  | didOpen hop | didClose hop | other hop => rw [hop]; rfl
  | didChange hop hdoc hchanges =>
    rw [hop]
    simp only [Option.elim_some, DocumentOp.handle, hdoc, applyIncrementalChanges, hchanges.applied]
    rfl

/-- The server has the texts that the client has, after whatever the client did with its documents. -/
theorem ClientRun.synchronized {params : NotificationParams υ}
    {documents documents' : Table υ DocumentState} {notifs : List Notification}
    (h : ClientRun params documents notifs documents') :
    notifs.foldlM (handleNotification params) ⟨documents⟩ = .ok ⟨documents'⟩ := by
  induction h with
  | nil => rfl
  | cons hstep _ ih =>
    rw [List.foldlM_cons, hstep.synchronized]
    exact ih

end Client

section Sample

def readU32 : Json → Option U32
  | .number (.posInt n) => if h : n.val < 2 ^ 32 then some ⟨n.val, h⟩ else none
  | _ => none

def readPosition : Json → Option Position
  | .object [("character", character), ("line", line)] => do
    return ⟨← readU32 line, ← readU32 character⟩
  | _ => none

def readChange : Json → Option TextDocumentContentChangeEvent
  | .object [("range", .object [("end", stop), ("start", start)]), ("text", .string text)] => do
    return ⟨some ⟨← readPosition start, ← readPosition stop⟩, text.toList⟩
  | .object [("text", .string text)] => some ⟨none, text.toList⟩
  | _ => none

/-- The parameters with their members in the order of a `Value`, and without those that are optional. -/
def sampleParams : NotificationParams String where
  didOpen v :=
    match v.json with
    | .object [("textDocument", .object [("languageId", .string _), ("text", .string text),
        ("uri", .string uri), ("version", .number version)])] => do
      return ⟨⟨uri, ← version.asI64.bind I32.tryFrom, text.toList⟩⟩
    | _ => none
  didChange v :=
    match v.json with
    | .object [("contentChanges", .array changes),
        ("textDocument", .object [("uri", .string uri), ("version", .number version)])] => do
      return ⟨⟨uri, ← version.asI64.bind I32.tryFrom⟩, ← changes.mapM readChange⟩
    | _ => none
  didClose v :=
    match v.json with
    | .object [("textDocument", .object [("uri", .string uri)])] => some ⟨⟨uri⟩⟩
    | _ => none

/-- An `u64`. -/
def natural (n : ℕ) : Json := .number (.posInt ⟨n % 2 ^ 64, Nat.mod_lt _ (Nat.two_pow_pos 64)⟩)

theorem one_isI32 : -2 ^ 31 ≤ (1 : ℤ) ∧ (1 : ℤ) < 2 ^ 31 := by decide

theorem two_isI32 : -2 ^ 31 ≤ (2 : ℤ) ∧ (2 : ℤ) < 2 ^ 31 := by decide

def sampleOpen : Notification where
  method := "textDocument/didOpen"
  params := some (.deserialize (.object [("textDocument", .object [("languageId", .string "text"),
    ("text", .string "a\nb"), ("uri", .string "file:///a"), ("version", natural 1)])]))

def sampleRange : Json := .object [
  ("end", .object [("character", natural 1), ("line", natural 1)]),
  ("start", .object [("character", natural 0), ("line", natural 1)])]

def sampleChange : Notification where
  method := "textDocument/didChange"
  params := some (.deserialize (.object [
    ("contentChanges", .array [.object [("range", sampleRange), ("text", .string "c")]]),
    ("textDocument", .object [("uri", .string "file:///a"), ("version", natural 2)])]))

def sampleItem : TextDocumentItem String := ⟨"file:///a", ⟨1, one_isI32⟩, ['a', '\n', 'b']⟩

def sampleVersion : VersionedTextDocumentIdentifier String := ⟨"file:///a", ⟨2, two_isI32⟩⟩

/-- The documents after a client has opened one. -/
def sampleDocuments : Table String DocumentState :=
  Table.empty.insert sampleItem.uri ⟨sampleItem.text, sampleItem.version⟩

theorem clientStep_change : ClientStep sampleParams sampleDocuments sampleChange
    (sampleDocuments.insert sampleVersion.uri ⟨['a', '\n', 'c'], sampleVersion.version⟩) := by
  let range : Range := ⟨⟨⟨1, by decide⟩, 0⟩, ⟨⟨1, by decide⟩, ⟨1, by decide⟩⟩⟩
  have hop : documentOp sampleParams sampleChange =
      some (.didChange sampleVersion [⟨some range, ['c']⟩]) :=
    rfl
  have hchange : Describes (['a', '\n'] ++ ['b'] ++ []) ⟨some range, ['c']⟩
      (['a', '\n'] ++ ['c'] ++ []) :=
    .replace (by decide) (by simp [SplitsBreak]) (by simp [SplitsBreak]) rfl rfl
  exact .didChange hop rfl (.cons hchange .nil)

end Sample

/-- Whatever the parameters and the positions are, as long as all texts together stay below 4 GiB the
notifications never stop the server, and no document has more text than they brought. If they say what a
client has done with its documents, then the server has the same documents. -/
theorem documents_follow {params : NotificationParams υ} {notifs : List Notification}
    (h : (notifs.map (byteLength params)).sum < 2 ^ 32) :
    (∃ state, notifs.foldlM (handleNotification params) .new = .ok state ∧
      Within (notifs.map (byteLength params)).sum state.documents) ∧
    ∀ documents, ClientRun params .empty notifs documents →
      notifs.foldlM (handleNotification params) .new = .ok ⟨documents⟩ := by
  obtain ⟨hfold, hwithin⟩ := foldlM_handleNotification h
  exact ⟨⟨_, hfold, hwithin⟩, fun documents hclient ↦ hclient.synchronized⟩

theorem documents_follow_change : [sampleOpen, sampleChange].foldlM
    (handleNotification sampleParams) .new =
      .ok ⟨sampleDocuments.insert sampleVersion.uri ⟨['a', '\n', 'c'], sampleVersion.version⟩⟩ :=
  have hop : documentOp sampleParams sampleOpen = some (.didOpen sampleItem) := rfl
  (documents_follow (by decide)).2 _ (.cons (.didOpen hop) (.cons clientStep_change .nil))

end LspServerTokio.FormatterServer
