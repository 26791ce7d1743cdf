import SomniumDB.Storage.FsUtil

/-! # The RESP parser (`resp.h`)

One parser serves the network and the append-only file. It reads from a
position of a buffer and either completes a command, asks for more bytes, or
declares the bytes malformed. -/

namespace SomniumDB.Resp

open Bytes FsUtil

def kMaxArgs : Nat := 1024 * 1024

def kMaxBulk : Nat := 512 * 1024 * 1024

def kMaxHeader : Nat := 32

/-- The result of `parse`: `complete` carries the position after the command
and the arguments. -/
inductive Parsed
  | complete (stop : Nat) (args : List Bytes)
  | needMore
  | malformed
  deriving DecidableEq, Repr

/-- Index of the first `\r\n`. -/
def findCrlf : Bytes → Option Nat
  | 13 :: 10 :: _ => some 0
  | _ :: rest => (findCrlf rest).map (· + 1)
  | [] => none

/-- `std::from_chars` on an unsigned 64-bit integer, requiring that every
character up to the end is consumed. -/
def fromChars (digits : Bytes) : Option Nat :=
  if digits = [] then none else readDecimal uint64Max 0 digits

inductive Header
  | complete (value used : Nat)
  | needMore
  | malformed
  deriving DecidableEq, Repr

/-- `"<lead><number>\r\n"` at the front of `rest`, the CRLF searched within a
bounded window. -/
def header (lead : UInt8) (max : Nat) (rest : Bytes) : Header :=
  match rest with
  | [] => .needMore
  | first :: _ =>
      if first ≠ lead then .malformed
      else
        let window := rest.take kMaxHeader
        match findCrlf window with
        | none => if window.length < kMaxHeader then .needMore else .malformed
        | some crlf =>
            match fromChars ((window.take crlf).drop 1) with
            | none => .malformed
            | some value =>
                if max < value then .malformed else .complete value (crlf + 2)

/-- The `count` bulk strings that follow the array header. -/
def parseBulks : Nat → Bytes → Nat → Parsed
  | 0, _, pos => .complete pos []
  | count + 1, rest, pos =>
      match header 36 kMaxBulk rest with
      | .needMore => .needMore
      | .malformed => .malformed
      | .complete len used =>
          let body := rest.drop used
          if body.length < len + 2 then .needMore
          else if body[len]? ≠ some 13 ∨ body[len + 1]? ≠ some 10 then .malformed
          else
            match parseBulks count (body.drop (len + 2)) (pos + used + len + 2) with
            | .complete stop args => .complete stop (body.take len :: args)
            | other => other

def parse (buf : Bytes) (pos : Nat) : Parsed :=
  let rest := buf.drop pos
  match header 42 kMaxArgs rest with
  | .needMore => .needMore
  | .malformed => .malformed
  | .complete count used => parseBulks count (rest.drop used) (pos + used)

/-! ## Encoding -/

def crlf : Bytes := [13, 10]

/-- `"$<length>\r\n<bytes>\r\n"`. -/
def bulk (text : Bytes) : Bytes :=
  36 :: (decimal text.length ++ crlf) ++ text ++ crlf

/-- An array of bulk strings, as the replicator and the log write it. -/
def encode (args : List Bytes) : Bytes :=
  42 :: (decimal args.length ++ crlf) ++ args.flatMap bulk

/-! ## Inline commands -/

def kMaxInline : Nat := 64 * 1024

def isSpace (byte : UInt8) : Bool :=
  byte == 32 || (9 ≤ byte && byte ≤ 13)

def isHex (byte : UInt8) : Bool :=
  (48 ≤ byte && byte ≤ 57) || (65 ≤ byte && byte ≤ 70) || (97 ≤ byte && byte ≤ 102)

def hexValue (byte : UInt8) : UInt8 :=
  if byte ≤ 57 then byte - 48 else if byte ≤ 70 then byte - 55 else byte - 87

/-- The named escapes `\n \r \t \b \a`; any other character stands for itself. -/
def escaped (byte : UInt8) : UInt8 :=
  if byte = 110 then 10 else if byte = 114 then 13 else if byte = 116 then 9
  else if byte = 98 then 8 else if byte = 97 then 7 else byte

def startsHexPair : Bytes → Bool
  | high :: low :: _ => isHex high && isHex low
  | _ => false

/-- One argument of an inline command, with the open quote (zero: none) and
what has been read of the argument; the result keeps the unread line. -/
def scanArg : UInt8 → Bytes → Bytes → Option (Bytes × Bytes)
  | quote, arg, [] => if quote = 0 then some (arg, []) else none
  | quote, arg, ch :: rest =>
      if quote = 0 then
        if isSpace ch then some (arg, ch :: rest)
        else if ch = 34 ∨ ch = 39 then scanArg ch arg rest
        else scanArg quote (arg ++ [ch]) rest
      else if ch = quote then
        -- a closing quote is followed by a space or by the end of the line
        if rest.head?.all isSpace then scanArg 0 arg rest else none
      else if ch = 92 then
        match rest with
        | [] => none
        | next :: tail =>
            if quote = 39 then
              scanArg quote (arg ++ (if next = 39 then [next] else [92, next])) tail
            else if next = 120 ∧ startsHexPair tail then
              match tail with
              | high :: low :: after =>
                  scanArg quote (arg ++ [hexValue high * 16 + hexValue low]) after
              | _ => none
            else scanArg quote (arg ++ [escaped next]) tail
      else scanArg quote (arg ++ [ch]) rest

/-- `split_inline`; each round consumes at least one byte, so the length of
the line bounds the number of rounds. -/
def splitInlineLoop : Nat → Bytes → Option (List Bytes)
  | 0, _ => some []
  | fuel + 1, line =>
      match line.dropWhile isSpace with
      | [] => some []
      | ch :: rest =>
          match scanArg 0 [] (ch :: rest) with
          | none => none
          | some (arg, unread) => (splitInlineLoop fuel unread).map (arg :: ·)

def splitInline (line : Bytes) : Option (List Bytes) :=
  splitInlineLoop (line.length + 1) line

/-- Client requests: a RESP array, or one line of inline command. -/
def parseRequest (buf : Bytes) (pos : Nat) : Parsed :=
  let rest := buf.drop pos
  match rest with
  | [] => parse buf pos
  | first :: _ =>
      if first = 42 then parse buf pos
      else
        let window := rest.take kMaxInline
        match window.findIdx? (· = 10) with
        | none => if window.length < kMaxInline then .needMore else .malformed
        | some nl =>
            let line := window.take nl
            let trimmed := if line.getLast? = some 13 then line.dropLast else line
            match splitInline trimmed with
            | none => .malformed
            | some args => .complete (pos + nl + 1) args

end SomniumDB.Resp
