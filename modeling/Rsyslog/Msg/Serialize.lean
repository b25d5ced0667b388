import Rsyslog.Obj.Serialize

/-!
# Messages on disk

`MsgSerialize` and `MsgDeserialize` of `msg.c`, with the setters and getters they go through. The
properties are written in a fixed order, those without a value left out, and read back in the same
order, each one if it is there.

What lies outside the repository is in `Env`: the JSON library, whose text is taken to parse back,
the name lookup, and which rulesets the running configuration knows.
-/

namespace Rsyslog.Msg

open Lib Rsyslog.Stream Rsyslog.Obj

/-- A string as `rs_size_t` admits it: never more than 2 GiB. -/
abbrev RsString := { s : Bytes // s.length < 2 ^ 31 }

abbrev CString := { s : Bytes // 0 ∉ s ∧ s.length < 2 ^ 31 }

structure Env where
  Json : Type
  json_object_get_string : Json → CString
  json_tokener_parse : Bytes → Option Json
  parse_get_string : ∀ j, json_tokener_parse (json_object_get_string j).1 = some j
  SockAddr : Type
  cvthname : SockAddr → Bool → Option (RsString × RsString)
  rulesetKnown : Bytes → Bool

def plainEnv : Env where
  Json := Empty
  json_object_get_string := Empty.elim
  json_tokener_parse _ := none
  parse_get_string j := j.elim
  SockAddr := Empty
  cvthname a := a.elim
  rulesetKnown _ := false

inductive ProtocolVersion
  | legacy
  | rfc5424
  deriving DecidableEq

inductive FlowControl
  | noDelay
  | lightDelay
  | fullDelay
  deriving DecidableEq

/-- The bit of `msgFlags` that says which member of the union `rcvFrom` is in use. -/
def NEEDS_DNSRESOL : Int32 := 0x40

/-- The bit of `msgFlags` that says which form of the sender's name the lookup is to give. -/
def PRESERVE_CASE : Int32 := 0x200

/-- The bits of `msgFlags` that the parsers look at. -/
def INTERNAL_MSG : Int32 := 0x001

@[inherit_doc INTERNAL_MSG]
def IGNDATE : Int32 := 0x004

@[inherit_doc INTERNAL_MSG]
def PARSE_HOSTNAME : Int32 := 0x020

/-- `smsg_t`. A string field that a pointer may leave unset is an `Option`; `pRcvFrom` and
`pfrominet` are the members of the union `rcvFrom`. -/
structure SMsg (E : Env) where
  iProtocolVersion : ProtocolVersion
  iSeverity : UInt16
  iFacility : UInt16
  msgFlags : Int32
  ttGenTime : Int64
  tRcvdAt : SyslogTime
  tTIMESTAMP : SyslogTime
  TAG : Bytes
  pszRawMsg : Option Bytes
  offMSG : Int32
  iLenMSG : ℤ
  pszHOSTNAME : Option Bytes
  pInputName : Option Bytes
  pRcvFrom : Option Bytes
  pfrominet : Option E.SockAddr
  pRcvFromIP : Option Bytes
  pszStrucData : Option Bytes
  json : Option E.Json
  localvars : Option E.Json
  pCSAPPNAME : Option Bytes
  pCSPROCID : Option Bytes
  pCSMSGID : Option Bytes
  pszUUID : Option Bytes
  pRuleset : Option Bytes
  dfltTZ : Bytes
  flowCtlType : FlowControl

variable {E : Env}

def SMsg.rawMsg (m : SMsg E) : Bytes := m.pszRawMsg.getD []

/-- The MSG part. A message that was not parsed yet has none: its `offMSG` is `-1`. -/
def SMsg.MSG (m : SMsg E) : Option Bytes :=
  if m.offMSG < 0 then none
  else some ((m.rawMsg.drop m.offMSG.toInt.toNat).take m.iLenMSG.toNat)

/-! ## Setters and getters -/

/-- `LOG_DEBUG` and `LOG_INVLD` until something else is set. -/
def msgBaseConstruct : SMsg E where
  iProtocolVersion := .legacy
  iSeverity := 7
  iFacility := 192
  msgFlags := 0
  ttGenTime := 0
  tRcvdAt := zeroTime
  tTIMESTAMP := zeroTime
  TAG := []
  pszRawMsg := none
  offMSG := -1
  iLenMSG := 0
  pszHOSTNAME := none
  pInputName := none
  pRcvFrom := none
  pfrominet := none
  pRcvFromIP := none
  pszStrucData := none
  json := none
  localvars := none
  pCSAPPNAME := none
  pCSPROCID := none
  pCSMSGID := none
  pszUUID := none
  pRuleset := none
  dfltTZ := []
  flowCtlType := .noDelay

def setProtocolVersion (m : SMsg E) (iNewVersion : Int32) : SMsg E :=
  { m with iProtocolVersion := if iNewVersion = 1 then .rfc5424 else .legacy }

def MsgSetTAG (m : SMsg E) (buf : Bytes) : SMsg E := { m with TAG := buf }

def MsgSetRawMsg (m : SMsg E) (buf : Bytes) : SMsg E :=
  { m with
    pszRawMsg := some buf
    iLenMSG := if (buf.length : ℤ) > m.offMSG.toInt then
      m.iLenMSG + (buf.length - m.rawMsg.length) else 0 }

def MsgSetHOSTNAME (m : SMsg E) (buf : Bytes) : SMsg E := { m with pszHOSTNAME := some buf }

def MsgSetInputName (m : SMsg E) (buf : Bytes) : SMsg E := { m with pInputName := some buf }

def MsgSetRcvFrom (m : SMsg E) (buf : Bytes) : SMsg E :=
  if m.msgFlags &&& NEEDS_DNSRESOL ≠ 0 then
    { m with msgFlags := m.msgFlags &&& ~~~NEEDS_DNSRESOL, pRcvFrom := some buf }
  else { m with pRcvFrom := some buf }

def MsgSetRcvFromIP (m : SMsg E) (buf : Bytes) : SMsg E := { m with pRcvFromIP := some buf }

def MsgSetStructuredData (m : SMsg E) (buf : Bytes) : SMsg E :=
  { m with pszStrucData := some (cstring buf) }

def MsgSetAPPNAME (m : SMsg E) (buf : Bytes) : SMsg E :=
  { m with pCSAPPNAME := some (if cstring buf = [] then [45] else cstring buf) }

def MsgSetPROCID (m : SMsg E) (buf : Bytes) : SMsg E :=
  { m with pCSPROCID := some (cstring buf) }

def MsgSetMSGID (m : SMsg E) (buf : Bytes) : SMsg E :=
  { m with pCSMSGID := some (cstring buf) }

def MsgSetRulesetByName (m : SMsg E) (name : Bytes) : SMsg E :=
  if E.rulesetKnown (cstring name) then { m with pRuleset := some (cstring name) } else m

def MsgSetMSGoffs (m : SMsg E) (offs : Int32) : SMsg E :=
  { m with
    offMSG := offs
    iLenMSG := if offs.toInt > m.rawMsg.length then 0 else m.rawMsg.length - offs.toInt }

def resolveDNS (m : SMsg E) : SMsg E :=
  if m.msgFlags &&& NEEDS_DNSRESOL ≠ 0 then
    match m.pfrominet.bind fun f => E.cvthname f (m.msgFlags &&& PRESERVE_CASE ≠ 0) with
    | some (localName, ip) => MsgSetRcvFromIP (MsgSetRcvFrom m localName.1) ip.1
    | none => m
  else m

def getInputName (m : SMsg E) : Bytes := m.pInputName.getD []

/-- A name that was not resolved leaves a socket address where the name is read: undefined. -/
def getRcvFrom (m : SMsg E) : Option Bytes :=
  if m.msgFlags &&& NEEDS_DNSRESOL ≠ 0 ∧ m.pfrominet.isSome then none
  else if m.msgFlags &&& NEEDS_DNSRESOL ≠ 0 then some []
  else some (m.pRcvFrom.getD [])

def getRcvFromIP (m : SMsg E) : Bytes := m.pRcvFromIP.getD []

/-! ## Writing -/

def ProtocolVersion.toShort : ProtocolVersion → Int16
  | .legacy => 0
  | .rfc5424 => 1

/-- The properties in the order in which they are written; one without a value is left out. The
sender's name and address are those after the lookup. -/
def msgProps (m : SMsg E) (rcvFrom rcvFromIP : Bytes) : List (String × Option PropVal) :=
  [("iProtocolVersion", some (.short m.iProtocolVersion.toShort)),
    ("iSeverity", some (.short m.iSeverity.toInt16)),
    ("iFacility", some (.short m.iFacility.toInt16)),
    ("msgFlags", some (.int m.msgFlags)),
    -- an INT property reads the low half of the time_t
    ("ttGenTime", some (.int m.ttGenTime.toInt32)),
    ("tRcvdAt", some (.syslogTime m.tRcvdAt)),
    ("tTIMESTAMP", some (.syslogTime m.tTIMESTAMP)),
    ("pszTAG", some (.psz m.TAG)),
    ("pszRawMsg", m.pszRawMsg.map .psz),
    ("pszHOSTNAME", m.pszHOSTNAME.map .psz),
    ("pszInputName", some (.psz (getInputName m))),
    ("pszRcvFrom", some (.psz rcvFrom)),
    ("pszRcvFromIP", some (.psz rcvFromIP)),
    ("pszStrucData", m.pszStrucData.map .psz),
    ("json", m.json.map fun j => .psz (E.json_object_get_string j).1),
    ("localvars", m.localvars.map fun j => .psz (E.json_object_get_string j).1),
    ("pCSAPPNAME", m.pCSAPPNAME.map .cstr),
    ("pCSPROCID", m.pCSPROCID.map .cstr),
    ("pCSMSGID", m.pCSMSGID.map .cstr),
    ("pszUUID", m.pszUUID.map .psz),
    ("pszRuleset", m.pRuleset.map .psz),
    ("offMSG", some (.int m.offMSG))]

/-- `none` is undefined behaviour. -/
def MsgSerialize (m : SMsg E) : Option (Except RsRet Bytes) :=
  (getRcvFrom (resolveDNS m)).map fun rcvFrom => do
    let header ← objSerializeHeader (ascii "Obj") (ascii "msg") 1
    let lines ← (msgProps m rcvFrom (getRcvFromIP (resolveDNS m))).mapM fun p =>
      SerializeProp (ascii p.1) p.2
    return header ++ (lines.flatten ++ EndSerialize)

/-! ## Reading -/

/-- The members of the union; what is not the one in use is not looked at in a stream that
`MsgSerialize` wrote. -/
def varNum (v : Var) : Int64 :=
  match v.val with
  | .num n => n
  | _ => 0

def varStr (v : Var) : Bytes :=
  match v.val with
  | .str s => s
  | _ => []

def varTime (v : Var) : SyslogTime :=
  match v.val with
  | .syslogTime t => t
  | _ => zeroTime

def msgSetters : List (String × (SMsg E → Var → SMsg E)) :=
  [("iProtocolVersion", fun m v => setProtocolVersion m (varNum v).toInt32),
    ("iSeverity", fun m v => { m with iSeverity := (varNum v).toInt16.toUInt16 }),
    ("iFacility", fun m v => { m with iFacility := (varNum v).toInt16.toUInt16 }),
    ("msgFlags", fun m v => { m with msgFlags := (varNum v).toInt32 }),
    ("ttGenTime", fun m v => { m with ttGenTime := varNum v }),
    ("tRcvdAt", fun m v => { m with tRcvdAt := varTime v }),
    ("tTIMESTAMP", fun m v => { m with tTIMESTAMP := varTime v }),
    ("pszTAG", fun m v => MsgSetTAG m (varStr v)),
    ("pszRawMsg", fun m v => MsgSetRawMsg m (varStr v)),
    ("pszHOSTNAME", fun m v => MsgSetHOSTNAME m (varStr v)),
    ("pszInputName", fun m v => MsgSetInputName m (varStr v)),
    ("pszRcvFrom", fun m v => MsgSetRcvFrom m (varStr v)),
    ("pszRcvFromIP", fun m v => MsgSetRcvFromIP m (varStr v)),
    ("pszStrucData", fun m v => MsgSetStructuredData m (varStr v)),
    ("json", fun m v => { m with json := E.json_tokener_parse (varStr v) }),
    ("localvars", fun m v => { m with localvars := E.json_tokener_parse (varStr v) }),
    ("pCSAPPNAME", fun m v => MsgSetAPPNAME m (varStr v)),
    ("pCSPROCID", fun m v => MsgSetPROCID m (varStr v)),
    ("pCSMSGID", fun m v => MsgSetMSGID m (varStr v)),
    ("pszUUID", fun m v => { m with pszUUID := some (cstring (varStr v)) }),
    ("pszRuleset", fun m v => MsgSetRulesetByName m (varStr v))]

/-- One `if(isProp(..))`: use the property that was read last and read the next, or go on. -/
def ifProp (r : SMsg E × Var) (p : String × (SMsg E → Var → SMsg E)) : Rd (SMsg E × Var) :=
  if r.2.pcsName = ascii p.1 then do
    let v ← objDeserializeProperty (reinitVar r.2)
    pure (p.2 r.1 r.2, v)
  else pure r

def MsgDeserialize (m : SMsg E) : Rd (SMsg E) := do
  let v ← objDeserializeProperty Var.construct
  let r ← msgSetters.foldlM ifProp (m, v)
  if r.2.pcsName ≠ ascii "offMSG" then throw .dsPropSeqErr
  else pure (MsgSetMSGoffs r.1 (varNum r.2).toInt32)

def deserializeMsg : Rd (SMsg E) :=
  objDeserializeWithMethods (ascii "msg") (MsgDeserialize msgBaseConstruct)

end Rsyslog.Msg
