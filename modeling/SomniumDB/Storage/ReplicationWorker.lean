import SomniumDB.Storage.Replicator

/-! # The worker of a peer (`replicator.cpp`)

A worker ships one round after the other and saves the offset that it has
reached. How the calls of a round end is given to it as an outcome. -/

namespace SomniumDB

open Bytes Resp

namespace Replicator

def kTickMs : Nat := 500

def kMaxBackoffMs : Nat := 30000

/-! ## Reading the replies -/

/-- The variables of the loop of `deliver`: `text` is `in`. -/
structure Replies where
  text : Bytes := []
  pos : Nat := 0
  seen : Nat := 0
  failed : Bool := false
  acked : Nat := 0

/-- The reply line of `length` bytes at `pos`. -/
def Replies.line (replies : Replies) (length : Nat) : Replies :=
  let failed := replies.failed || replies.text[replies.pos]? != some 43
  { replies with
    failed
    acked := if failed then replies.acked else replies.acked + 1
    seen := replies.seen + 1
    pos := replies.pos + length + 2 }

/-- The rounds of the loop that find a line in what has been received. Each of
them counts one reply, which bounds their number. -/
def countLines (expected : Nat) : Nat → Replies → Replies
  | 0, replies => replies
  | rounds + 1, replies =>
      if replies.seen < expected then
        match findCrlf (replies.text.drop replies.pos) with
        | none => replies
        | some length => countLines expected rounds (replies.line length)
      else replies

/-- `deliver` after the pipeline has been written, on what each `recv` returns:
nothing at the end of the connection and after an error. -/
def receive (expected : Nat) : List Bytes → Replies → Option Nat
  | chunks, replies =>
      let counted := countLines expected expected replies
      if expected ≤ counted.seen then some counted.acked
      else
        match chunks with
        | [] => none
        | chunk :: rest =>
            if chunk = [] then none
            else receive expected rest { counted with text := counted.text ++ chunk }

/-! ## A round -/

/-- The state file of a peer; a file that is absent or empty reads as zeros. -/
structure SavedOffset where
  inode : Nat := 0
  offset : Nat := 0
  deriving DecidableEq, Repr

def stateText (saved : SavedOffset) : Bytes :=
  decimal saved.inode ++ 32 :: (decimal saved.offset ++ [10])

def isDigit (byte : UInt8) : Bool :=
  48 ≤ byte && byte ≤ 57

/-- `operator>>` for a number without a sign; where there is none the number is 0. -/
def leadingNumber (text : Bytes) : Nat :=
  (readDecimal FsUtil.uint64Max 0 (text.takeWhile isDigit)).getD 0

def readState (text : Bytes) : SavedOffset where
  inode := leadingNumber text
  offset := leadingNumber ((text.dropWhile isDigit).dropWhile isSpace)

theorem isDigit_decimal (number : Nat) : ∀ byte ∈ decimal number, isDigit byte = true := by
  intro byte member
  have range := decimal_digits number byte member
  simp [isDigit, range.1, range.2]

theorem leadingNumber_decimal {number : Nat} (fits : number ≤ FsUtil.uint64Max) {next : UInt8}
    (ends : isDigit next = false) (rest : Bytes) :
    leadingNumber (decimal number ++ next :: rest) = number := by
  unfold leadingNumber
  rw [List.takeWhile_append_of_pos (isDigit_decimal number),
    List.takeWhile_cons_of_neg (Bool.eq_false_iff.mp ends), List.append_nil,
    readDecimal_decimal FsUtil.uint64Max number fits]
  rfl

theorem dropWhile_decimal (number : Nat) (rest : Bytes) :
    (decimal number ++ rest).dropWhile isSpace = decimal number ++ rest := by
  cases digits : decimal number with
  | nil => exact absurd digits (decimal_ne_nil number)
  | cons first others =>
      have member : first ∈ decimal number := by
        rw [digits]
        exact List.mem_cons_self
      rcases decimal_digits number first member with ⟨low, _⟩
      have noSpace : ¬isSpace first = true := by
        simp only [isSpace, Bool.or_eq_true, beq_iff_eq, Bool.and_eq_true, decide_eq_true_eq]
        rintro (space | ⟨_, high⟩)
        · rw [space] at low
          exact absurd low (by decide)
        · exact absurd (UInt8.le_trans low high) (by decide)
      exact List.dropWhile_cons_of_neg noSpace

theorem readState_stateText {saved : SavedOffset} (inode : saved.inode ≤ FsUtil.uint64Max)
    (offset : saved.offset ≤ FsUtil.uint64Max) : readState (stateText saved) = saved := by
  have first : leadingNumber (stateText saved) = saved.inode :=
    leadingNumber_decimal inode rfl _
  have second : leadingNumber (((stateText saved).dropWhile isDigit).dropWhile isSpace) =
      saved.offset := by
    rw [stateText, List.dropWhile_append_of_pos (isDigit_decimal saved.inode),
      List.dropWhile_cons_of_neg (by decide), List.dropWhile_cons_of_pos (by decide),
      dropWhile_decimal]
    exact leadingNumber_decimal offset rfl []
  unfold readState
  rw [first, second]

/-- A text that ends before the offset is read as the beginning of the log. -/
theorem readState_take {saved : SavedOffset} {length : Nat}
    (short : length ≤ (decimal saved.inode).length + 1) :
    (readState ((stateText saved).take length)).offset = 0 := by
  have digits : ∀ byte ∈ (decimal saved.inode).take length, isDigit byte = true :=
    fun byte member => isDigit_decimal saved.inode byte (List.mem_of_mem_take member)
  have space : length - (decimal saved.inode).length ≤ 1 := by
    omega
  unfold readState
  dsimp only
  rw [stateText, List.take_append, List.dropWhile_append_of_pos digits]
  rcases Nat.le_one_iff_eq_zero_or_eq_one.mp space with none | one
  · rw [none]
    rfl
  · rw [one]
    rfl

/-- How `save` ends. The stream is checked before it is flushed, so the file may also be
replaced by one that has only the first `length` bytes of the text. -/
inductive SaveOutcome
  | replaced
  | kept
  | cut (length : Nat)
  deriving DecidableEq, Repr

def save (peer : Peer) (saved : SavedOffset) : SaveOutcome → SavedOffset
  | .replaced => { inode := peer.inode, offset := peer.offset }
  | .kept => saved
  | .cut length =>
      readState ((stateText { inode := peer.inode, offset := peer.offset }).take length)

/-- How the calls of one round end. `connects` covers the TLS handshake and the
authentication. -/
structure ShipOutcome where
  frontier : Nat := 0
  opened : Bool := true
  connects : Bool := true
  readable : Bool := true
  sent : Bool := true
  chunks : List Bytes := []
  resetSave : SaveOutcome := .replaced
  offsetSave : SaveOutcome := .replaced

/-- The worker of a peer: the peer, its state file and the delay before the
next round. -/
structure PeerWorker where
  peer : Peer := {}
  saved : SavedOffset := {}
  delay : Nat := kTickMs

/-- The constructor of the replicator: the offset comes from the state file. -/
def PeerWorker.load (saved : SavedOffset) : PeerWorker where
  peer := { inode := saved.inode, offset := saved.offset }
  saved := saved

/-- The round that is sent when the file cannot be read. -/
def unreadRound (peer : Peer) : Round where
  items := []
  closing := some [ascii "PING"]
  room := peer.room
  marks := []

/-- `ship` between the connection and the delivery. -/
def shipRound (nodeId : Nat) (peer : Peer) (file : AofFile) (outcome : ShipOutcome) :
    Peer × Round :=
  if outcome.readable then prepare nodeId outcome.frontier peer file
  else (connect (align peer file), unreadRound (connect (align peer file)))

/-- What `deliver` reports: the number of replies confirmed, nothing when the
connection was lost. -/
def delivered (round : Round) (outcome : ShipOutcome) : Option Nat :=
  if outcome.sent then receive round.commands.length outcome.chunks {} else none

/-- `ship` after the delivery, given what `deliver` reports. -/
def settleAcked (peer : Peer) (round : Round) (report : Option Nat) : Peer :=
  let acked := report.getD 0
  { peer with
    connected := report.isSome
    room := if 0 < round.items.length then
        (if acked = round.items.length then round.room else [])
      else peer.room
    offset := confirmed acked round.marks peer.offset }

def PeerWorker.ship (nodeId : Nat) (worker : PeerWorker) (file : Option AofFile)
    (outcome : ShipOutcome) : PeerWorker × Bool :=
  match file with
  | none => (worker, false)
  | some file =>
      let aligned := align worker.peer file
      if !outcome.opened then (worker, false)
      else if !aligned.connected && !outcome.connects then
        ({ worker with peer := { aligned with room := [] } }, false)
      else
        let (ready, round) := shipRound nodeId worker.peer file outcome
        let reset :=
          if ready.offset ≠ aligned.offset then save ready worker.saved outcome.resetSave
          else worker.saved
        let report := delivered round outcome
        let after := settleAcked ready round report
        let saved :=
          if after.offset ≠ ready.offset then save after reset outcome.offsetSave else reset
        ({ worker with peer := after, saved }, report.isSome)

/-- One round of the thread: a failed round doubles the delay. -/
def PeerWorker.turn (nodeId : Nat) (worker : PeerWorker) (file : Option AofFile)
    (outcome : ShipOutcome) : PeerWorker :=
  let (shipped, alive) := worker.ship nodeId file outcome
  { shipped with delay := if alive then kTickMs else min (worker.delay * 2) kMaxBackoffMs }

end Replicator

end SomniumDB
