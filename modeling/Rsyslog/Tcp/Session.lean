import Rsyslog.Lib.Decimal
import Rsyslog.Lib.Feed

/-!
# Syslog over TCP

`TCPSendBldFrame` of `tcpclt.c`, which puts a message into a frame, and `processDataRcvd` of
`tcps_sess.c`, which takes the frames out of the octets of a connection. An octet-counted frame
starts with the length of the message, an octet-stuffed one ends with a delimiter.

What a session submits is the list of messages it hands on.
-/

namespace Rsyslog.Tcp

open Lib

inductive TCPFRAMINGMODE
  | octetStuffing
  | octetCounting
  deriving DecidableEq

/-! ## The sender -/

def charToInt (c : UInt8) : ℤ := c.toInt8.toInt

/-- The frame of a message. A message that starts with `z` is compressed and always counted. The
delimiter is added unless the message ends with it. An empty message has no last octet to look at:
undefined. -/
def TCPSendBldFrame (tcp_framing : TCPFRAMINGMODE) (tcp_framingDelimiter : UInt8)
    (msg : Bytes) : Option Bytes :=
  let framingToUse := if msg.head? = some 122 then .octetCounting else tcp_framing
  match framingToUse with
  | .octetStuffing =>
    msg.getLast?.map fun last =>
      if charToInt last ≠ tcp_framingDelimiter.toNat then msg ++ [tcp_framingDelimiter] else msg
  | .octetCounting => some (decimalInt (Int32.ofNat msg.length).toInt ++ [32] ++ msg)

/-! ## The receiver -/

inductive InputState
  | eAtStrtFram
  | eInOctetCnt
  | eInMsg
  | eInMsgTruncating
  deriving DecidableEq

/-- The settings that a session looks at. The configuration admits no other bounds. -/
structure TcpSrv where
  bSuppOctetFram : Bool
  bSPFramingFix : Bool
  bDisableLFDelim : Bool
  addtlFrameDelim : ℤ
  maxFrameSize : ℤ
  discardTruncatedMsg : Bool
  iMaxLine : ℕ
  maxFrameSize_le : maxFrameSize ≤ 200000000
  iMaxLine_ge : 128 ≤ iMaxLine

/-- `tcps_sess_t`; `iMsg` is the length of `pMsg`. -/
structure TcpsSess where
  inputState : InputState
  eFraming : TCPFRAMINGMODE
  iOctetsRemain : ℤ
  pMsg : Bytes
  deriving DecidableEq

def TcpsSess.construct : TcpsSess := ⟨.eAtStrtFram, .octetStuffing, 0, []⟩

def TCPSRV_NO_ADDTL_DELIMITER : ℤ := -1

variable (cfg : TcpSrv)

def TcpSrv.isDelim (c : UInt8) : Bool :=
  (c = 10 && !cfg.bDisableLFDelim) ||
    (cfg.addtlFrameDelim ≠ TCPSRV_NO_ADDTL_DELIMITER && charToInt c = cfg.addtlFrameDelim)

def defaultDoSubmitMessage (s : TcpsSess) : TcpsSess × List Bytes :=
  ({ s with pMsg := [] }, if s.pMsg = [] then [] else [s.pMsg])

def countOctet (s : TcpsSess) (submitted : List Bytes) : TcpsSess × List Bytes :=
  if s.eFraming = .octetCounting then
    let s := { s with iOctetsRemain := s.iOctetsRemain - 1 }
    if s.iOctetsRemain < 1 then
      let r := defaultDoSubmitMessage s
      ({ r.1 with inputState := .eAtStrtFram }, submitted ++ r.2)
    else (s, submitted)
  else (s, submitted)

/-- `eInMsg`. With a full buffer, the octet at hand is stored nowhere. -/
def inMsg (s : TcpsSess) (c : UInt8) : TcpsSess × List Bytes :=
  if cfg.isDelim c ∧ s.eFraming = .octetStuffing then
    let r := defaultDoSubmitMessage s
    ({ r.1 with inputState := .eAtStrtFram }, r.2)
  else if s.pMsg.length < cfg.iMaxLine then
    countOctet { s with pMsg := s.pMsg ++ [c] } []
  else
    let r := defaultDoSubmitMessage s
    if cfg.discardTruncatedMsg then
      if s.eFraming = .octetCounting then
        if s.iOctetsRemain - 1 = 0 then
          ({ r.1 with iOctetsRemain := s.iOctetsRemain - 1, inputState := .eAtStrtFram }, r.2)
        else
          ({ r.1 with iOctetsRemain := s.iOctetsRemain - 1, inputState := .eInMsgTruncating }, r.2)
      else ({ r.1 with inputState := .eInMsgTruncating }, r.2)
    else countOctet r.1 r.2

/-- `eInMsgTruncating`: only look for the end of the frame. -/
def inMsgTruncating (s : TcpsSess) (c : UInt8) : TcpsSess × List Bytes :=
  if s.eFraming = .octetCounting then
    if s.iOctetsRemain - 1 < 1 then
      ({ s with iOctetsRemain := s.iOctetsRemain - 1, inputState := .eAtStrtFram }, [])
    else ({ s with iOctetsRemain := s.iOctetsRemain - 1 }, [])
  else if cfg.isDelim c then ({ s with inputState := .eAtStrtFram }, [])
  else (s, [])

def cntDigit (iOctetsRemain : ℤ) (c : UInt8) : ℤ :=
  if iOctetsRemain ≤ 200000000 then iOctetsRemain * 10 + c.toNat - 48 else iOctetsRemain

/-- `eInOctetCnt`. The digits are kept, for the case that they turn out not to be a count. -/
def inOctetCnt (s : TcpsSess) (c : UInt8) : TcpsSess × List Bytes :=
  if isDigit c then
    ({ s with
      iOctetsRemain := cntDigit s.iOctetsRemain c
      pMsg := if s.pMsg.length < cfg.iMaxLine then s.pMsg ++ [c] else s.pMsg }, [])
  else
    let s := if s.iOctetsRemain < 1 then { s with eFraming := .octetStuffing } else s
    let s := if s.iOctetsRemain > cfg.maxFrameSize then { s with eFraming := .octetStuffing }
      else { s with pMsg := [] }
    ({ s with inputState := .eInMsg }, [])

def inFrame (s : TcpsSess) (c : UInt8) : TcpsSess × List Bytes :=
  match s.inputState with
  | .eInMsg => inMsg cfg s c
  | .eInMsgTruncating => inMsgTruncating cfg s c
  | .eInOctetCnt => inOctetCnt cfg s c
  -- the start of a frame was left before
  | .eAtStrtFram => (s, [])

def processDataRcvd (s : TcpsSess) (c : UInt8) : TcpsSess × List Bytes :=
  if s.inputState = .eAtStrtFram then
    if isDigit c ∧ cfg.bSuppOctetFram then
      inFrame cfg { s with
        inputState := .eInOctetCnt, iOctetsRemain := 0, eFraming := .octetCounting } c
    else if c = 32 ∧ cfg.bSPFramingFix then (s, [])
    else inFrame cfg { s with inputState := .eInMsg, eFraming := .octetStuffing } c
  else inFrame cfg s c

def DataRcvd (s : TcpsSess) (pData : Bytes) : TcpsSess × List Bytes :=
  feed (processDataRcvd cfg) s pData

end Rsyslog.Tcp
