import Exchange.Checksum
import Exchange.Json

/-! The write-ahead log and snapshot store of `recovery.cpp`, for one shard.
Every file operation succeeds and a written byte is there to be read; what a
process has only staged in `pending_` is not in the file. A crash keeps the
files and loses the store. -/
namespace Exchange

/-- What the directory holds for a shard: the log, the snapshot and the
snapshot being written. -/
structure Files where
  wal : Bytes := []
  snapshot : Option Bytes := none
  temp : Option Bytes := none
  deriving DecidableEq

structure WalStore where
  files : Files
  /-- The group-commit staging buffer. -/
  pending : Bytes := []
  batchCount : Nat := 0
  /-- `handle_ != nullptr`. -/
  isOpen : Bool := true
  deriving DecidableEq

/-- The group-commit window, in records. -/
def kCommitBatch : Nat := 64

/-- `"<crc32:8hex> <json>\n"`. -/
def recordLine (command : Json) : Bytes :=
  paddedHex 8 (crc32 command.dump).toNat ++ byte ' ' :: (command.dump ++ [byte '\n'])

/-- `(std::uint32_t)std::strtoul(text, nullptr, 16)` on eight bytes. -/
def strtoul16 (text : Bytes) : UInt32 :=
  match scanHex text with
  | none => 0
  | some (negative, value) => UInt32.ofInt (if negative then -value else value)

/-- Successive `std::getline` calls, with the line read so far. The text after
the last line break is a line if there is any. -/
def linesFrom (line : Bytes) : Bytes → List Bytes
  | [] => if line = [] then [] else [line]
  | c :: rest => if c = byte '\n' then line :: linesFrom [] rest else linesFrom (line ++ [c]) rest

def lines (text : Bytes) : List Bytes := linesFrom [] text

/-- The loop of `replay_commands`: lines of another shape are passed over, a
wrong checksum ends the log, and a parse error is thrown. -/
def replayLines : List Bytes → Except JsonError (List Json)
  | [] => .ok []
  | line :: rest =>
    let text := if line.getLast? = some (byte '\r') then line.dropLast else line
    if text.length < 9 ∨ text[8]? ≠ some (byte ' ') then replayLines rest
    else if crc32 (text.drop 9) ≠ strtoul16 (text.take 8) then .ok []
    else do
      let command ← Json.parse (text.drop 9)
      let commands ← replayLines rest
      .ok (command :: commands)

namespace WalStore

/-- The constructor: the log is opened for appending and nothing is staged. -/
def open_ (files : Files) : WalStore where
  files := files

def flush (store : WalStore) : WalStore :=
  if store.isOpen then
    { store with
      files := { store.files with wal := store.files.wal ++ store.pending }
      pending := []
      batchCount := 0 }
  else store

def append (store : WalStore) (command : Json) : WalStore :=
  let store := { store with
    pending := store.pending ++ recordLine command
    batchCount := store.batchCount + 1 }
  if kCommitBatch ≤ store.batchCount then store.flush else store

/-- `replay_commands`, which flushes first. -/
def replayCommands (store : WalStore) : Except JsonError (WalStore × List Json) := do
  let store := store.flush
  let commands ← replayLines (lines store.files.wal)
  .ok (store, commands)

/-- `truncate_wal`: the log is reopened empty. -/
def truncateWal (store : WalStore) : WalStore :=
  { store with files := { store.files with wal := [] }, pending := [], batchCount := 0, isOpen := true }

/-- The temporary file holds what has been written of the snapshot. -/
def writeTemp (store : WalStore) (written : Bytes) : WalStore :=
  { store with files := { store.files with temp := some written } }

/-- `std::rename` of the temporary file over the snapshot. -/
def commitTemp (store : WalStore) : WalStore :=
  { store with files := { store.files with snapshot := store.files.temp, temp := none } }

def saveSnapshot (store : WalStore) (snapshot : Json) : WalStore :=
  ((store.flush.writeTemp snapshot.dump).commitTemp).truncateWal

/-- `load_snapshot`: no value for a missing or empty file. -/
def loadSnapshot (store : WalStore) : Except JsonError (Option Json) :=
  match store.files.snapshot with
  | none => .ok none
  | some payload =>
    if payload = [] then .ok none
    else do
      let snapshot ← Json.parse payload
      .ok (some snapshot)

/-- `close`, which the destructor calls. -/
def close (store : WalStore) : WalStore :=
  if store.isOpen then { store.flush with isOpen := false } else store

end WalStore
end Exchange
