import NetworkPing.Scan

/-! The request of a client: `ready_func`, `load_from_str` and the part of
`process_client` that receives it. A byte is written as the character of its code,
and `overrun` stands for a store behind the end of a buffer. -/

namespace NetworkPing

def maxClientMessage : ℕ := 1024

structure TestParams where
  port : Int32
  numConn : Int32
  runtime : Int32
  messageLen : Int32
  minTimeout : UInt64
  maxTimeout : UInt64
  -- with its terminator the string fits in the array
  ip : {s : List Char // s.length < maxClientMessage + 1}
  deriving DecidableEq

namespace Request

open Scan

structure ClientParams where
  localAddr : List Char × ℤ
  count : ℤ
  msize : ℤ
  runtime : ℤ
  timeout : ℤ × ℤ

def requestText (params : ClientParams) : List Char :=
  params.localAddr.1 ++ ' ' :: (signed params.localAddr.2 ++ ' ' :: (signed params.count ++ ' ' ::
    (signed params.runtime ++ ' ' :: (signed params.timeout.1 ++ ' ' ::
      (signed params.timeout.2 ++ ' ' :: signed params.msize)))))

def readyFunc (params : ClientParams) : Option (List Char) :=
  if (requestText params).all (·.toNat < 128) then some (requestText params) else none

def sizeofBuff : ℕ := maxClientMessage + 1

def sizeofIp : ℕ := maxClientMessage + 1

def cstr (bytes : List Char) : List Char := bytes.takeWhile (· ≠ '\x00')

def strtol (x : Lexeme) : ℤ :=
  max (-2 ^ 63) (min (if x.neg then -(ofDecimal x.text : ℤ) else ofDecimal x.text) (2 ^ 63 - 1))

def strtoul (x : Lexeme) : UInt64 :=
  if ofDecimal x.text < 2 ^ 64 then
    if x.neg then -UInt64.ofNat (ofDecimal x.text) else UInt64.ofNat (ofDecimal x.text)
  else UInt64.ofNat (2 ^ 64 - 1)

-- `%d` keeps the low bits of the `long` that it reads
def toInt (x : Lexeme) : Int32 := Int32.ofInt (strtol x)

-- `"%s %d %d %d %lu %lu %d"`; the blanks add nothing to what a conversion skips
def format : List Conv := [.word, .number, .number, .number, .number, .number, .number]

inductive Loaded
  | rejected
  | accepted (params : TestParams)
  | overrun
  deriving DecidableEq

def loadFromStr (data : List Char) : Loaded :=
  if data.length > sizeofIp then .rejected
  else match (sscanf format data).1 with
    | [] => .rejected
    | ip :: fields =>
      if h : ip.text.length < sizeofIp then
        match fields with
        | [port, numConn, runtime, minTimeout, maxTimeout, messageLen] =>
          if strtoul minTimeout > strtoul maxTimeout then .rejected
          else .accepted ⟨toInt port, toInt numConn, toInt runtime, toInt messageLen,
            strtoul minTimeout, strtoul maxTimeout, ⟨ip.text, h⟩⟩
        | _ => .rejected
      else .overrun

/-- What one non-blocking `recv` into `buff` returns; no bytes mean that the peer has closed. -/
inductive Recv
  | failed
  | again
  | data (bytes : {b : List Char // b.length ≤ sizeofBuff})

def recvLoop (recvs : ℕ → Recv) (i : ℕ) : ℕ → Option {b : List Char // b.length ≤ sizeofBuff}
  | 0 => none
  | tries + 1 =>
    match recvs i with
    | .failed => none
    | .again => recvLoop recvs (i + 1) tries
    | .data bytes => if bytes.1.length > 0 then some bytes else recvLoop recvs (i + 1) tries

def fill (buff : Vector Char sizeofBuff) (bytes : {b : List Char // b.length ≤ sizeofBuff}) :
    Vector Char sizeofBuff :=
  ⟨(bytes.1 ++ buff.toList.drop bytes.1.length).toArray, by have := bytes.2; simp; omega⟩

inductive Received
  | gaveUp
  | tooLarge
  | overrun
  | loaded (l : Loaded)

def processClient (buff : Vector Char sizeofBuff) (recvs : ℕ → Recv)
    (maxWaitTimeSeconds : ℕ := 5) : Received :=
  match recvLoop recvs 0 (maxWaitTimeSeconds * 10 + 1) with
  | none => .gaveUp
  | some bytes =>
    if bytes.1.length = sizeofBuff then .tooLarge
    else if h : bytes.1.length < sizeofBuff then
      .loaded (loadFromStr (cstr ((fill buff bytes).set bytes.1.length '\x00' h).toList))
    else .overrun

end Request

end NetworkPing
