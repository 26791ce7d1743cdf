import SomniumDB.Storage.Replicator

/-! # The manager of the append-only file (`aof_manager.cpp`)

Every call on the file system may fail, and a write may stop after some of its
bytes: what happens is given to each operation as an outcome. The durability of
what has been written and the worker that syncs in the background are in
`AofSync`; the sizes that decide when a rewrite is due are not modelled. -/

namespace SomniumDB

open Bytes FsUtil Resp AofRecord

/-! ## Recovery -/

namespace AofRecovery

def kMagicToken : Bytes := ascii "SOMNIUM-AOF"

def kAofVersion : Nat := 3

def isWriteCmd (command : Bytes) : Bool :=
  command = ascii "SET" ∨ command = ascii "DEL" ∨ command = ascii "CRDTMERGE"

def kChunk : Nat := 65536

/-- The buffer: `pos` advances with every record, and `compacted` counts the
bytes that have been consumed and dropped from the front. -/
structure Reader where
  buf : Bytes := []
  pos : Nat := 0
  compacted : Nat := 0

/-- `fill`, first half: the consumed part is dropped. -/
def Reader.compact (reader : Reader) : Reader where
  buf := reader.buf.drop reader.pos
  pos := 0
  compacted := reader.compacted + reader.pos

/-- `fill`, second half. -/
def Reader.extend (reader : Reader) (chunk : Bytes) : Reader :=
  { reader with buf := reader.buf ++ chunk }

/-- The inner loop: parse, and read one more chunk while the bytes are not
enough. `unread` is what is left to read. -/
def nextRecord (reader : Reader) : List Bytes → Parsed × Reader × List Bytes
  | [] =>
      match parse reader.buf reader.pos with
      | .needMore => (.needMore, reader.compact, [])
      | parsed => (parsed, reader, [])
  | chunk :: unread =>
      match parse reader.buf reader.pos with
      | .needMore => nextRecord (reader.compact.extend chunk) unread
      | parsed => (parsed, reader, chunk :: unread)

inductive Detected
  | header
  | corrupt
  | legacy (fmt : Fmt)

def detect (tokens : List Bytes) : Detected :=
  if tokens.length = 2 ∧ tokens[0]? = some kMagicToken then
    match parseU64 (tokens[1]?.getD []) with
    | none => .corrupt
    | some version => if version = kAofVersion then .header else .corrupt
  else if 2 ≤ tokens.length ∧ isWriteCmd (tokens[1]?.getD []) then .legacy .v2
  else .legacy .v1

/-- What recovery has done: the records given to the callback, the file
afterwards (none: renamed aside as corrupt) and whether it has to be rewritten
in the current format. -/
structure Recovery where
  replayed : List AofRecord := []
  file : Option Bytes
  needsRewrite : Bool := false
  deriving DecidableEq

/-- `preserve_as_corrupt`. -/
def Recovery.corrupt (recovery : Recovery) : Recovery :=
  { recovery with file := none, needsRewrite := true }

def Recovery.replay (recovery : Recovery) (record : AofRecord) : Recovery :=
  { recovery with replayed := recovery.replayed ++ [record] }

/-- `truncate_tail`. -/
def Recovery.truncate (recovery : Recovery) (length : Nat) : Recovery :=
  { recovery with file := recovery.file.map (·.take length) }

/-- The outer loop, one record a round. A record takes at least one byte, so the
length of the file bounds the number of rounds. -/
def recoverLoop : Nat → Reader → List Bytes → Option Fmt → Recovery → Recovery
  | 0, _, _, _, recovery => recovery
  | rounds + 1, reader, unread, fmt, recovery =>
      match nextRecord reader unread with
      | (.needMore, reader, _) =>
          if reader.pos < reader.buf.length then
            recovery.truncate (reader.compacted + reader.pos)
          else recovery
      | (.malformed, _, _) => recovery.corrupt
      | (.complete stop tokens, reader, unread) =>
          let continueWith := fun fmt recovery =>
            match buildRecord fmt tokens with
            | none => recovery.corrupt
            | some record =>
                recoverLoop rounds { reader with pos := stop } unread (some fmt)
                  (recovery.replay record)
          match fmt with
          | some fmt => continueWith fmt recovery
          | none =>
              match detect tokens with
              | .header =>
                  recoverLoop rounds { reader with pos := stop } unread (some .v3) recovery
              | .corrupt => recovery.corrupt
              | .legacy fmt => continueWith fmt { recovery with needsRewrite := true }

/-- `AOFManager::recover`, on the file as it is found. -/
def recover (file : Option Bytes) : Recovery :=
  match file with
  | none => { file := none }
  | some [] => { file := some [] }
  | some bytes =>
      recoverLoop (bytes.length + 1) {} (pieces kChunk bytes) none { file := some bytes }

end AofRecovery

/-! ## Writing -/

/-- The files, and what the manager knows of them. While `fd_` is open it is
open on `appendonly.aof`, so one bit says what there is to know about it. -/
structure AofManager where
  /-- `appendonly.aof`. -/
  file : Option Bytes := none
  /-- `appendonly.aof.tmp`. -/
  tmp : Option Bytes := none
  fd : Bool := false
  rewriteFd : Bool := false
  size : Nat := 0
  /-- A partial record could not be cut off. -/
  torn : Bool := false
  deriving DecidableEq

/-- How the calls of `open_file` end: `written` bytes of the header are
written. -/
structure OpenOutcome where
  opened : Bool := true
  sized : Bool := true
  written : Nat := aofHeader.length
  truncated : Bool := true
  synced : Bool := true

/-- How the calls of `append` end: `written` bytes of the record are written. -/
structure AppendOutcome where
  opened : Bool := true
  written : Nat
  sized : Bool := true
  truncated : Bool := true
  synced : Bool := true

/-- How the calls of `commit_rewrite` end. -/
structure CommitOutcome where
  sized : Bool := true
  synced : Bool := true
  closed : Bool := true
  renamed : Bool := true
  reopened : Bool := true

namespace AofManager

/-- The content of the file once it has been opened, which creates it. -/
def content (manager : AofManager) : Bytes :=
  manager.file.getD []

/-- `open_file`: the header is written where the file turns out to be empty. -/
def openFile (manager : AofManager) (outcome : OpenOutcome) : AofManager × Bool :=
  if manager.fd then (manager, true)
  else if !outcome.opened then (manager, false)
  else if outcome.sized ∧ manager.content = [] then
    if outcome.written < aofHeader.length then
      ({ manager with
          file := some (if outcome.truncated then [] else aofHeader.take outcome.written)
          size := 0 }, false)
    else
      ({ manager with
          file := some aofHeader
          size := aofHeader.length
          fd := outcome.synced }, outcome.synced)
  else
    ({ manager with
        file := some manager.content
        size := if outcome.sized then manager.content.length else 0
        fd := true }, true)

/-- `append`: a record that could not be written in full is cut off again, or
nothing more is appended. -/
def append (manager : AofManager) (record : AofRecord) (outcome : AppendOutcome) :
    AofManager × Bool :=
  let data := record.encodeRecord
  if manager.torn then (manager, false)
  else if !manager.fd ∧ !outcome.opened then (manager, false)
  else if outcome.written < data.length then
    if outcome.written = 0 ∨ (outcome.sized ∧ outcome.truncated) then
      ({ manager with file := some manager.content, fd := false }, false)
    else
      ({ manager with
          file := some (manager.content ++ data.take outcome.written)
          fd := false
          torn := true }, false)
  else
    ({ manager with
        file := some (manager.content ++ data)
        fd := true
        size := manager.size + data.length }, outcome.synced)

/-- `start_rewrite`: `written` bytes of the header are written. -/
def startRewrite (manager : AofManager) (opened : Bool) (written : Nat) : AofManager × Bool :=
  if manager.rewriteFd then (manager, true)
  else if !opened then (manager, false)
  else if written < aofHeader.length then ({ manager with tmp := none }, false)
  else ({ manager with tmp := some aofHeader, rewriteFd := true }, true)

/-- `append_rewrite`: `written` bytes of the record are written. -/
def appendRewrite (manager : AofManager) (record : AofRecord) (written : Nat) :
    AofManager × Bool :=
  if !manager.rewriteFd then (manager, false)
  else
    ({ manager with
        tmp := some (manager.tmp.getD [] ++ record.encodeRecord.take written) },
      record.encodeRecord.length ≤ written)

/-- The bytes that `append_tail` copies: from the given offset up to `size_`. -/
def tail (manager : AofManager) (start : Nat) : Bytes :=
  (manager.content.drop start).take (manager.size - start)

/-- `append_tail`: `copied` bytes are read and written. -/
def appendTail (manager : AofManager) (start : Nat) (opened : Bool) (copied : Nat) :
    AofManager × Bool :=
  if !manager.rewriteFd ∨ !opened ∨ manager.file = none then (manager, false)
  else
    ({ manager with tmp := some (manager.tmp.getD [] ++ (manager.tail start).take copied) },
      (manager.tail start).length = manager.size - start ∧ manager.size - start ≤ copied)

def abortRewrite (manager : AofManager) : AofManager :=
  { manager with rewriteFd := false, tmp := none }

/-- `commit_rewrite`: the temporary file replaces the log. -/
def commitRewrite (manager : AofManager) (outcome : CommitOutcome) : AofManager × Bool :=
  if !manager.rewriteFd then (manager, false)
  else if !outcome.synced ∨ !outcome.closed ∨ !outcome.renamed then
    (manager.abortRewrite, false)
  else
    ({ manager with
        file := some (manager.tmp.getD [])
        tmp := none
        rewriteFd := false
        fd := outcome.reopened
        torn := false
        size := if outcome.sized then (manager.tmp.getD []).length else 0 },
      outcome.reopened)

end AofManager

inductive AofCall
  | openFile (outcome : OpenOutcome)
  | append (record : AofRecord) (outcome : AppendOutcome)
  | startRewrite (opened : Bool) (written : Nat)
  | appendRewrite (record : AofRecord) (written : Nat)
  | appendTail (start : Nat) (opened : Bool) (copied : Nat)
  | commitRewrite (outcome : CommitOutcome)
  | abortRewrite

namespace AofManager

def step (manager : AofManager) : AofCall → AofManager
  | .openFile outcome => (manager.openFile outcome).1
  | .append record outcome => (manager.append record outcome).1
  | .startRewrite opened written => (manager.startRewrite opened written).1
  | .appendRewrite record written => (manager.appendRewrite record written).1
  | .appendTail start opened copied => (manager.appendTail start opened copied).1
  | .commitRewrite outcome => (manager.commitRewrite outcome).1
  | .abortRewrite => manager.abortRewrite

def run (manager : AofManager) (calls : List AofCall) : AofManager :=
  calls.foldl step manager

end AofManager

end SomniumDB
