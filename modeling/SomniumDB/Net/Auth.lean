import SomniumDB.Core.Resp

/-! # Authentication of a connection (`auth.cpp`)

There is one user, `default`. Names are compared as C strings and without regard to
case; passwords byte for byte. -/

namespace SomniumDB.Net

open Bytes

structure Session where
  /-- The protocol negotiated by `HELLO`. -/
  resp3 : Bool := false
  authenticated : Bool
  deriving DecidableEq, Repr

/-- `strcasecmp` on `c_str()`: what follows a zero byte does not count. The name is in
capital letters. -/
def isName (arg name : Bytes) : Bool :=
  upper (arg.takeWhile (· ≠ 0)) = name

/-- The loop of `credentials_ok`, over the whole password without an early exit. -/
def passwordDiff (diff : UInt8) : Bytes → Bytes → UInt8
  | [], _ => diff
  | byte :: password, pass =>
      passwordDiff (diff ||| (byte ^^^ pass.headD 0)) password pass.tail

def defaultUser : Bytes := ascii "default"

def credentialsOk (user pass password : Bytes) : Bool :=
  passwordDiff (if pass.length ≠ password.length then 1 else 0) password pass = 0 ∧
    user = defaultUser

def authenticate (session : Session) (user pass password : Bytes) : Session × Bytes :=
  if !credentialsOk user pass password then
    (session, ascii "-WRONGPASS invalid username-password pair\r\n")
  else ({ session with authenticated := true }, ascii "+OK\r\n")

/-- `AUTH [user] pass`. -/
def auth (session : Session) (args : List Bytes) (password : Bytes) : Session × Bytes :=
  if args.length ≠ 2 ∧ args.length ≠ 3 then
    (session, ascii "-ERR wrong number of arguments for 'auth' command\r\n")
  else if password = [] then
    (session,
      ascii "-ERR AUTH <password> called without any password configured for the default user. " ++
        ascii "Are you sure your configuration is correct?\r\n")
  else
    authenticate session (if args.length = 3 then args[1]?.getD [] else defaultUser)
      (args.getLast?.getD []) password

/-- `std::from_chars` on an `int`, requiring that every character is consumed. -/
def fromCharsInt (text : Bytes) : Option Int :=
  match text with
  | [] => none
  | 45 :: digits =>
      if digits = [] then none
      else (readDecimal (2 ^ 31) 0 digits).map fun magnitude => -(magnitude : Int)
  | digits => (readDecimal (2 ^ 31 - 1) 0 digits).map fun magnitude => (magnitude : Int)

def helloSyntax (option : Bytes) : Bytes :=
  ascii "-ERR Syntax error in HELLO option '" ++ option ++ ascii "'\r\n"

/-- The options of `HELLO`, each with its arguments; an error reply ends them. -/
def helloOptions (password : Bytes) (session : Session) : List Bytes → Session × Option Bytes
  | [] => (session, none)
  | [option] => (session, some (helloSyntax option))
  | [option, _] =>
      if isName option (ascii "SETNAME") then (session, none)
      else (session, some (helloSyntax option))
  | option :: first :: second :: rest =>
      if isName option (ascii "AUTH") then
        if password = [] then helloOptions password session rest
        else
          let (changed, reply) := authenticate session first second password
          if reply.head? = some 45 then (changed, some reply)
          else helloOptions password changed rest
      else if isName option (ascii "SETNAME") then
        helloOptions password session (second :: rest)
      else (session, some (helloSyntax option))

def helloRefused : Bytes :=
  ascii "-NOAUTH HELLO must be called with the client already authenticated, otherwise the " ++
    ascii "HELLO <proto> AUTH <user> <pass> option can be used to authenticate the client and " ++
    ascii "select the RESP protocol version at the same time\r\n"

/-- The description of the server, a map on RESP3 and a flat list on RESP2. -/
def helloReply (fd : Nat) (resp3 : Bool) : Bytes :=
  (if resp3 then ascii "%7\r\n" else ascii "*14\r\n") ++
    Resp.bulk (ascii "server") ++ Resp.bulk (ascii "somnium") ++
    Resp.bulk (ascii "version") ++ Resp.bulk (ascii "7.0.0") ++
    Resp.bulk (ascii "proto") ++ ascii ":" ++ (if resp3 then ascii "3" else ascii "2") ++
    ascii "\r\n" ++ Resp.bulk (ascii "id") ++ ascii ":" ++ decimal fd ++ ascii "\r\n" ++
    Resp.bulk (ascii "mode") ++ Resp.bulk (ascii "standalone") ++
    Resp.bulk (ascii "role") ++ Resp.bulk (ascii "master") ++
    Resp.bulk (ascii "modules") ++ ascii "*0\r\n"

/-- The end of `hello`, once the options have been read. -/
def helloDone (session : Session) (fd : Nat) (proto : Int) : Session × Bytes :=
  if !session.authenticated then (session, helloRefused)
  else ({ session with resp3 := proto = 3 }, helloReply fd (proto = 3))

/-- `HELLO [protover [AUTH user pass] [SETNAME name]]`. -/
def hello (session : Session) (fd : Nat) (args : List Bytes) (password : Bytes) :
    Session × Bytes :=
  match args with
  | _ :: version :: options =>
      match fromCharsInt version with
      | none => (session, ascii "-ERR Protocol version is not an integer or out of range\r\n")
      | some proto =>
          if proto ≠ 2 ∧ proto ≠ 3 then
            (session, ascii "-NOPROTO unsupported protocol version\r\n")
          else
            match helloOptions password session options with
            | (changed, some reply) => (changed, reply)
            | (changed, none) => helloDone changed fd proto
  | _ => helloDone session fd (if session.resp3 then 3 else 2)

end SomniumDB.Net
