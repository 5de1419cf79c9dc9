import Mathlib.Tactic

/-!
# The decisions of the proxy

The pure functions of `proxy_core.c`: the interception hooks, the grammar of
device-control commands, the link and advertising policy, and the policy of
NUS sends. Lengths are natural numbers; a byte string carries its own length.
-/

set_option autoImplicit false

namespace NrfProxy.ProxyCore

def ENOMEM : ℤ := 12

def EAGAIN : ℤ := 11

def procBufSize : ℕ := 512

def onUartRx (inp : List UInt8) (outSize : ℕ) : List UInt8 :=
  inp.take (if inp.length < outSize then inp.length else outSize)

def onBleRx (inp : List UInt8) (outSize : ℕ) : List UInt8 :=
  inp.take (if inp.length < outSize then inp.length else outSize)

theorem onUartRx_eq (inp : List UInt8) (outSize : ℕ) : onUartRx inp outSize = inp.take outSize := by
  unfold onUartRx
  split
  · rename_i h
    rw [List.take_length, List.take_of_length_le h.le]
  · rfl

def proxyCmdStart : UInt8 := 0x22

def proxyCmdPacketLen : ℕ := 16

def proxyCmdPayloadOff : ℕ := 3

def proxyOpRelay : UInt8 := 0x01

def proxyOpBaud : UInt8 := 0x02

inductive CmdKind where
  | none
  | invalid
  | relayDisable
  | relayEnable
  | setBaud
  deriving DecidableEq, Repr

structure Cmd where
  kind : CmdKind
  baud : UInt32
  ack : List UInt8
  ackLen : ℕ
  deriving DecidableEq, Repr

def cmdChecksum (inp : List UInt8) : UInt8 :=
  (inp.take (proxyCmdPacketLen-1)).foldl (fun sum b => sum+b) 0

def supported : List UInt32 := [1200, 9600, 19200, 38400, 57600, 115200]

def proxyBaudSupported (baud : UInt32) : Bool := supported.any (fun r => baud == r)

def le32 (p : List UInt8) : UInt32 :=
  (p.getD 0 0).toUInt32 ||| ((p.getD 1 0).toUInt32 <<< 8) |||
    ((p.getD 2 0).toUInt32 <<< 16) ||| ((p.getD 3 0).toUInt32 <<< 24)

def framed (inp : List UInt8) : Bool :=
  inp.length == proxyCmdPacketLen && inp.getD 0 0 == proxyCmdStart &&
    inp.getD 1 0 == UInt8.ofNat proxyCmdPacketLen &&
    inp.getD (proxyCmdPacketLen-1) 0 == cmdChecksum inp

def cmdDecode (inp : List UInt8) : CmdKind × UInt32 :=
  let payload := inp.drop proxyCmdPayloadOff
  if inp.getD 2 0 = proxyOpRelay then
    if payload.getD 0 0 = 0 then (.relayDisable,0)
    else if payload.getD 0 0 = 1 then (.relayEnable,0)
    else (.invalid,0)
  else if inp.getD 2 0 = proxyOpBaud then
    let baud := le32 payload
    if proxyBaudSupported baud then (.setBaud,baud) else (.invalid,0)
  else (.invalid,0)

/-- `out` is the caller's record: an acknowledgement is copied into it for an
actionable command only, and what was in `ack` before stays there otherwise. -/
def proxyCmdParse (inp : List UInt8) (out : Cmd) : Cmd :=
  let out := { out with kind := .none, baud := 0, ackLen := 0 }
  if framed inp then
    let out := { out with kind := (cmdDecode inp).1, baud := (cmdDecode inp).2 }
    if out.kind = .invalid then out
    else { out with ack := inp.take proxyCmdPacketLen, ackLen := proxyCmdPacketLen }
  else out

/-- A caller's record before the parse, and the RELAY packets of the README. -/
def emptyCmd : Cmd := ⟨.none,0,[],0⟩

def relayPacket (enable : Bool) : List UInt8 :=
  if enable then [0x22, 0x10, 0x01, 0x01, 0, 0, 0, 0, 0, 0, 0, 0, 0, 0, 0, 0x34]
  else [0x22, 0x10, 0x01, 0x00, 0, 0, 0, 0, 0, 0, 0, 0, 0, 0, 0, 0x33]

example : (proxyCmdParse (relayPacket true) emptyCmd).kind = .relayEnable := by decide

example : (proxyCmdParse (relayPacket false) emptyCmd).kind = .relayDisable := by decide

structure LinkState where
  connected : Bool
  advActive : Bool
  linkSecure : Bool
  lockedMode : Bool
  deriving DecidableEq, Repr

def proxyShouldStartAdv (state : LinkState) : Bool := !state.connected && !state.advActive

def proxyMayForward (state : LinkState) : Bool := state.connected && state.linkSecure

def proxySecurityWindowMs (_lockedMode : Bool) : ℕ := 60000

def proxyAttHeaderLen : ℕ := 3

def proxyNusChunkFallback : ℕ := 20

def proxyNusChunkLimit (attMtu : ℕ) : ℕ :=
  if proxyAttHeaderLen < attMtu then (attMtu-proxyAttHeaderLen)%2^16 else proxyNusChunkFallback

def proxyNextSlice (outLen sent maxSend : ℕ) : ℕ :=
  if outLen ≤ sent then 0
  else if outLen-sent < maxSend then outLen-sent else maxSend

inductive SendVerdict where
  | consumed
  | retry
  | drop
  deriving DecidableEq, Repr

def proxySendResult (err : ℤ) : SendVerdict :=
  if err = 0 then .consumed
  else if err = -ENOMEM ∨ err = -EAGAIN then .retry
  else .drop

theorem chunkLimit_pos (attMtu : ℕ) (h : attMtu < 2^16) : 0 < proxyNusChunkLimit attMtu := by
  unfold proxyNusChunkLimit proxyAttHeaderLen proxyNusChunkFallback
  split <;> omega

theorem chunkLimit_le (attMtu m : ℕ) (h : attMtu ≤ m) (hm : 23 ≤ m) :
    proxyNusChunkLimit attMtu ≤ m-proxyAttHeaderLen := by
  unfold proxyNusChunkLimit proxyAttHeaderLen proxyNusChunkFallback
  split
  · exact (Nat.mod_le _ _).trans (by omega)
  · omega

theorem nextSlice_eq_zero (outLen sent maxSend : ℕ) (h : 0 < maxSend) :
    proxyNextSlice outLen sent maxSend = 0 ↔ outLen ≤ sent := by
  unfold proxyNextSlice
  split_ifs <;> omega

end NrfProxy.ProxyCore
