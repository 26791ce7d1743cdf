import SomniumDB.Core.Resp

/-! # Records of the append-only file (`aof_manager.h`, `aof_manager.cpp`)

A persisted mutation carries the resulting state: the absolute deadline and
the version travel with the command, so that replay reproduces the mutation
instead of running it again. -/

namespace SomniumDB

open Bytes FsUtil

@[ext] structure AofRecord where
  room : Bytes
  /-- The command name followed by its arguments. -/
  args : List Bytes
  expireAt : Int := 0
  timestampMs : Nat := 0
  nodeId : Nat := 1
  deriving DecidableEq, Repr

namespace AofRecord

def kMetaToken : Bytes := ascii "SOMNIUM-META"

/-- `[room, CMD, args..., META, expire, ts, node]`. -/
def tokens (record : AofRecord) : List Bytes :=
  record.room :: (record.args ++
    [kMetaToken, decimalInt record.expireAt, decimal record.timestampMs,
      decimal record.nodeId])

def encodeRecord (record : AofRecord) : Bytes :=
  Resp.encode record.tokens

inductive Fmt
  | v3
  | v2
  | v1
  deriving DecidableEq, Repr

/-- `build_record`: from the tokens of one record to the mutation. -/
def buildRecord (fmt : Fmt) (tokens : List Bytes) : Option AofRecord :=
  match fmt with
  | .v3 =>
      let n := tokens.length
      if n < 5 then none
      else if tokens[n - 4]? ≠ some kMetaToken then none
      else do
        let expireAt ← parseI64 (tokens[n - 3]?.getD [])
        let timestampMs ← parseU64 (tokens[n - 2]?.getD [])
        let node ← parseU64 (tokens[n - 1]?.getD [])
        if uint32Max < node then none
        else
          some {
            room := tokens.head?.getD []
            args := (tokens.take (n - 4)).drop 1
            expireAt, timestampMs
            nodeId := node }
  | .v2 =>
      match tokens with
      | [] => none
      | room :: args => some { room, args }
  | .v1 => some { room := ascii "default", args := tokens }

end AofRecord

end SomniumDB
