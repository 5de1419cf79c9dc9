import Mathlib.Data.List.GetD
import NrfProxy.LittleEndian
import NrfProxy.ProxyCore

/-!
# The grammar of device-control commands

A command is what the phone means by a packet, and its encoding is the frame the
README lays down. The parser is compared with the encoding on all byte strings.
It does not look at the payload bytes an opcode leaves unused, and accepts a
packet with anything in them. No packet in the frame is one byte from another.
-/

set_option autoImplicit false

namespace NrfProxy.CommandGrammar
open NrfProxy.LittleEndian NrfProxy.ProxyCore

inductive Command where
  | relay (enable : Bool)
  | baud (rate : {r : UInt32 // proxyBaudSupported r = true})
  deriving DecidableEq

def sum (bytes : List UInt8) : UInt8 := bytes.foldl (fun sum b => sum+b) 0

def frame (opcode : UInt8) (payload : List UInt8) : List UInt8 :=
  let body := proxyCmdStart::UInt8.ofNat proxyCmdPacketLen::opcode::payload
  body++[sum body]

def payloadLen : ℕ := 12

def Command.opcode : Command → UInt8
  | .relay _ => proxyOpRelay
  | .baud _ => proxyOpBaud

def Command.operand : Command → List UInt8
  | .relay enable => [if enable then 1 else 0]
  | .baud rate => toBytes rate.1

def Command.payload (c : Command) : List UInt8 :=
  c.operand++List.replicate (payloadLen-c.operand.length) 0

def encode (c : Command) : List UInt8 := frame c.opcode c.payload

def Command.kind : Command → CmdKind
  | .relay enable => if enable then .relayEnable else .relayDisable
  | .baud _ => .setBaud

def Command.rate : Command → UInt32
  | .relay _ => 0
  | .baud rate => rate.1

example : encode (.relay true) = relayPacket true := by decide

theorem payload_length (c : Command) : c.payload.length = payloadLen := by
  cases c <;> rfl

/-- The kinds `nus_received` acts on. -/
def actionable : CmdKind → Bool
  | .relayDisable | .relayEnable | .setBaud => true
  | .none | .invalid => false

/-- What the README and the header say of a parse of `inp`. -/
structure Documented (inp : List UInt8) (out : Cmd) : Prop where
  actionable : actionable out.kind = true ↔ ∃ c, inp = encode c
  decoded : ∀ c, inp = encode c →
    out.kind = c.kind ∧ out.baud = c.rate ∧ out.ack = inp ∧ out.ackLen = proxyCmdPacketLen
  invalid : framed inp = true → (∀ c, inp ≠ encode c) → out.kind = .invalid ∧ out.ackLen = 0
  none : framed inp = false → out.kind = .none ∧ out.ackLen = 0

def operandOk (inp : List UInt8) : Bool :=
  inp.getD 2 0 == proxyOpRelay && (inp.getD 3 0 == 0 || inp.getD 3 0 == 1) ||
    inp.getD 2 0 == proxyOpBaud && proxyBaudSupported (le32 (inp.drop proxyCmdPayloadOff))

def unusedBytes (inp : List UInt8) : List UInt8 :=
  ((inp.drop proxyCmdPayloadOff).take payloadLen).drop
    (if inp.getD 2 0 = proxyOpRelay then 1 else 4)

theorem split_packet (inp : List UInt8) (h : inp.length = proxyCmdPacketLen) :
    ∃ a b opcode payload x, payload.length = payloadLen ∧ inp = a::b::opcode::(payload++[x]) := by
  match inp, h with
  | a::b::opcode::rest, h =>
    have hlen : rest.length = payloadLen+1 := by simpa [proxyCmdPacketLen, payloadLen] using h
    obtain ⟨x,hx⟩ : ∃ x, rest.drop payloadLen = [x] := by
      apply List.length_eq_one_iff.mp
      rw [List.length_drop, hlen]
      rfl
    refine ⟨a,b,opcode,rest.take payloadLen,x,?_,?_⟩
    · rw [List.length_take, hlen]
      rfl
    · rw [← hx, List.take_append_drop]

theorem framed_packet (a b opcode x : UInt8) (payload : List UInt8)
    (h : payload.length = payloadLen) : framed (a::b::opcode::(payload++[x])) =
      (a == proxyCmdStart && b == UInt8.ofNat proxyCmdPacketLen &&
        x == sum (a::b::opcode::payload)) := by
  have hlast : (a::b::opcode::(payload++[x])).getD 15 0 = x := by
    show (payload++[x]).getD payloadLen 0 = x
    rw [List.getD_append_right _ _ _ _ h.le, h]
    rfl
  have htake : (a::b::opcode::(payload++[x])).take 15 = a::b::opcode::payload := by
    show a::b::opcode::(payload++[x]).take payloadLen = a::b::opcode::payload
    rw [List.take_left' h]
  have hlen : (a::b::opcode::(payload++[x])).length = proxyCmdPacketLen := by
    simp [h, payloadLen, proxyCmdPacketLen]
  simp only [framed, hlen, beq_self_eq_true, Bool.true_and, cmdChecksum, proxyCmdPacketLen, hlast,
    htake]
  rfl

theorem framed_iff (inp : List UInt8) : framed inp = true ↔
    ∃ opcode payload, payload.length = payloadLen ∧ inp = frame opcode payload := by
  constructor
  · intro h
    have hlen : inp.length = proxyCmdPacketLen := by
      simp only [framed, Bool.and_eq_true, beq_iff_eq] at h
      exact h.1.1.1
    obtain ⟨a,b,opcode,payload,x,hp,rfl⟩ := split_packet inp hlen
    rw [framed_packet a b opcode x payload hp] at h
    simp only [Bool.and_eq_true, beq_iff_eq] at h
    obtain ⟨⟨rfl,rfl⟩,rfl⟩ := h
    exact ⟨opcode,payload,hp,rfl⟩
  · rintro ⟨opcode,payload,hp,rfl⟩
    have h := framed_packet proxyCmdStart (UInt8.ofNat proxyCmdPacketLen) opcode
      (sum (proxyCmdStart::UInt8.ofNat proxyCmdPacketLen::opcode::payload)) payload hp
    simpa [frame] using h

theorem frame_inj {o o' : UInt8} {p p' : List UInt8} (h : frame o p = frame o' p') :
    o = o' ∧ p = p' := by
  simp only [frame] at h
  obtain ⟨hbody,_⟩ := List.append_inj' h rfl
  simp only [List.cons.injEq, true_and] at hbody
  exact hbody

theorem frame_drop (opcode : UInt8) (payload : List UInt8) :
    (frame opcode payload).drop proxyCmdPayloadOff =
      payload++[sum (proxyCmdStart::UInt8.ofNat proxyCmdPacketLen::opcode::payload)] := rfl

theorem frame_opcode (opcode : UInt8) (payload : List UInt8) :
    (frame opcode payload).getD 2 0 = opcode := rfl

theorem le32_eq (p : List UInt8) :
    le32 p = ofBytes (p.getD 0 0) (p.getD 1 0) (p.getD 2 0) (p.getD 3 0) := rfl

theorem payload_split (payload : List UInt8) (h : payload.length = payloadLen) :
    payload = [payload.getD 0 0]++payload.drop 1 ∧
      payload = toBytes (le32 payload)++payload.drop 4 := by
  match payload, h with
  | a::b::c::d::rest, _ =>
    constructor
    · rfl
    · rw [le32_eq, toBytes_ofBytes]
      rfl

theorem le32_append (p q : List UInt8) (h : 4 ≤ p.length) : le32 (p++q) = le32 p := by
  simp only [le32_eq]
  rw [List.getD_append _ _ _ _ (by omega), List.getD_append _ _ _ _ (by omega),
    List.getD_append _ _ _ _ (by omega), List.getD_append _ _ _ _ (by omega)]

theorem le32_toBytes (w : UInt32) (q : List UInt8) : le32 (toBytes w++q) = w :=
  ofBytes_toBytes w

theorem encode_framed (c : Command) : framed (encode c) = true :=
  (framed_iff _).mpr ⟨c.opcode,c.payload,payload_length c,rfl⟩

theorem zeros_iff (bytes : List UInt8) :
    (∀ b ∈ bytes, b = 0) ↔ bytes = List.replicate bytes.length 0 :=
  List.eq_replicate_length.symm

theorem operandOk_frame (opcode : UInt8) (payload : List UInt8) (h : payload.length = payloadLen) :
    operandOk (frame opcode payload) =
      (opcode == proxyOpRelay && (payload.getD 0 0 == 0 || payload.getD 0 0 == 1) ||
        opcode == proxyOpBaud && proxyBaudSupported (le32 payload)) := by
  have hfirst : (frame opcode payload).getD 3 0 = payload.getD 0 0 := by
    show (payload++_).getD 0 0 = _
    rw [List.getD_append _ _ _ _ (by rw [h]; decide)]
  rw [operandOk, hfirst, frame_opcode, frame_drop, le32_append _ _ (by rw [h]; decide)]

theorem unusedBytes_frame (opcode : UInt8) (payload : List UInt8)
    (h : payload.length = payloadLen) : unusedBytes (frame opcode payload) =
      payload.drop (if opcode = proxyOpRelay then 1 else 4) := by
  rw [unusedBytes, frame_drop, List.take_left' h, frame_opcode]

theorem encoded_iff (inp : List UInt8) (h : framed inp = true) : (∃ c, inp = encode c) ↔
    operandOk inp = true ∧ ∀ b ∈ unusedBytes inp, b = 0 := by
  obtain ⟨opcode,payload,hp,rfl⟩ := (framed_iff inp).mp h
  rw [operandOk_frame opcode payload hp, unusedBytes_frame opcode payload hp]
  constructor
  · rintro ⟨c,hc⟩
    obtain ⟨rfl,rfl⟩ := frame_inj hc
    cases c with
    | relay enable =>
      constructor
      · cases enable <;> rfl
      · intro b hb
        exact List.eq_of_mem_replicate hb
    | baud rate =>
      constructor
      · simp [Command.opcode, Command.payload, Command.operand, le32_toBytes, rate.2]
      · intro b hb
        exact List.eq_of_mem_replicate hb
  · rintro ⟨hok,hzero⟩
    obtain ⟨hrelay,hbaud⟩ := payload_split payload hp
    rw [zeros_iff, List.length_drop, hp] at hzero
    simp only [Bool.or_eq_true, Bool.and_eq_true, beq_iff_eq] at hok
    rcases hok with ⟨rfl,hb⟩ | ⟨rfl,hb⟩
    · rw [if_pos rfl] at hzero
      rw [hrelay, hzero]
      rcases hb with hb | hb <;> rw [hb]
      · exact ⟨.relay false,rfl⟩
      · exact ⟨.relay true,rfl⟩
    · rw [if_neg (by decide)] at hzero
      rw [hbaud, hzero]
      exact ⟨.baud ⟨le32 payload,hb⟩,rfl⟩

theorem decode_actionable (inp : List UInt8) :
    actionable (cmdDecode inp).1 = operandOk inp := by
  have hfirst : (inp.drop proxyCmdPayloadOff).getD 0 0 = inp.getD 3 0 := by
    simp [List.getD_eq_getElem?_getD, proxyCmdPayloadOff]
  unfold cmdDecode operandOk
  simp only [hfirst]
  by_cases hrelay : inp.getD 2 0 = proxyOpRelay
  · have hbaud : (proxyOpRelay == proxyOpBaud) = false := by decide
    rw [if_pos hrelay, hrelay, hbaud]
    split_ifs <;> simp_all [actionable]
  · rw [if_neg hrelay]
    split_ifs <;> simp_all [actionable]

theorem decode_encode (c : Command) : cmdDecode (encode c) = (c.kind,c.rate) := by
  cases c with
  | relay enable => cases enable <;> decide
  | baud rate =>
    have hrate : le32 ((encode (.baud rate)).drop proxyCmdPayloadOff) = rate.1 :=
      le32_toBytes rate.1 _
    have hop : (encode (.baud rate)).getD 2 0 = proxyOpBaud := rfl
    rw [cmdDecode, hop, hrate, if_neg (by decide), if_pos rfl]
    simp [rate.2, Command.kind, Command.rate]

theorem decode_kind (inp : List UInt8) : (cmdDecode inp).1 ≠ .none := by
  unfold cmdDecode
  dsimp only
  split_ifs <;> simp

theorem parse_framed {inp : List UInt8} (out : Cmd) (h : framed inp = true) :
    (proxyCmdParse inp out).kind = (cmdDecode inp).1 ∧
    (proxyCmdParse inp out).baud = (cmdDecode inp).2 ∧
    (operandOk inp = true → (proxyCmdParse inp out).ack = inp ∧
      (proxyCmdParse inp out).ackLen = proxyCmdPacketLen) ∧
    (operandOk inp = false → (cmdDecode inp).1 = .invalid ∧
      (proxyCmdParse inp out).ackLen = 0) := by
  have hlen : inp.length = proxyCmdPacketLen := by
    simp only [framed, Bool.and_eq_true, beq_iff_eq] at h
    exact h.1.1.1
  have htake : inp.take proxyCmdPacketLen = inp := by rw [← hlen, List.take_length]
  have hact := decode_actionable inp
  have hnone := decode_kind inp
  cases hk : (cmdDecode inp).1 <;> rw [hk] at hact hnone <;>
    simp_all [proxyCmdParse, actionable, ← hact]

theorem parse_unframed {inp : List UInt8} (out : Cmd) (h : framed inp = false) :
    (proxyCmdParse inp out).kind = .none ∧ (proxyCmdParse inp out).ackLen = 0 := by
  simp [proxyCmdParse, h]

theorem parse_actionable (inp : List UInt8) (out : Cmd) :
    actionable (proxyCmdParse inp out).kind = true ↔
      framed inp = true ∧ operandOk inp = true := by
  cases h : framed inp with
  | false => simp [(parse_unframed out h).1, actionable]
  | true => simp [(parse_framed out h).1, decode_actionable]

theorem documented_iff (inp : List UInt8) (out : Cmd) : Documented inp (proxyCmdParse inp out) ↔
    (framed inp = true → operandOk inp = true → ∀ b ∈ unusedBytes inp, b = 0) := by
  constructor
  · intro hd hf hok
    obtain hc := hd.actionable.mp ((parse_actionable inp out).mpr ⟨hf,hok⟩)
    exact ((encoded_iff inp hf).mp hc).2
  · intro hzero
    have henc : (∃ c, inp = encode c) ↔ framed inp = true ∧ operandOk inp = true := by
      constructor
      · rintro ⟨c,rfl⟩
        have hf := encode_framed c
        exact ⟨hf,((encoded_iff _ hf).mp ⟨c,rfl⟩).1⟩
      · rintro ⟨hf,hok⟩
        exact (encoded_iff inp hf).mpr ⟨hok,hzero hf hok⟩
    constructor
    · rw [parse_actionable, henc]
    · rintro c rfl
      have hf := encode_framed c
      have hok := ((encoded_iff _ hf).mp ⟨c,rfl⟩).1
      obtain ⟨hk,hb,hack,_⟩ := parse_framed out hf
      rw [hk, hb, decode_encode]
      exact ⟨rfl,rfl,hack hok⟩
    · intro hf hne
      have hok : operandOk inp = false := by
        by_contra hok
        obtain ⟨c,hc⟩ := henc.mpr ⟨hf,by simpa using hok⟩
        exact hne c hc
      obtain ⟨hk,_,_,hbad⟩ := parse_framed out hf
      rw [hk]
      exact hbad hok
    · exact parse_unframed out

/-- The loop of `cmd_checksum` over the bytes `mem` lets it read. -/
def cmdChecksumReads (mem : ℕ → Option UInt8) : Option UInt8 :=
  (List.range (proxyCmdPacketLen-1)).foldlM (fun sum i => (mem i).map (fun b => sum+b)) 0

/-- The framing gate, which stops at the first test that fails. -/
def framedReads (mem : ℕ → Option UInt8) (inLen : ℕ) : Option Bool :=
  if inLen ≠ proxyCmdPacketLen then some false
  else (mem 0).bind fun start =>
    if start ≠ proxyCmdStart then some false
    else (mem 1).bind fun len =>
      if len ≠ UInt8.ofNat proxyCmdPacketLen then some false
      else (mem (proxyCmdPacketLen-1)).bind fun checksum =>
        (cmdChecksumReads mem).map fun sum => checksum == sum

def le32Reads (mem : ℕ → Option UInt8) (off : ℕ) : Option UInt32 :=
  (mem off).bind fun a => (mem (off+1)).bind fun b => (mem (off+2)).bind fun c =>
    (mem (off+3)).map fun d => le32 [a,b,c,d]

def cmdDecodeReads (mem : ℕ → Option UInt8) : Option (CmdKind × UInt32) :=
  (mem 2).bind fun opcode =>
    if opcode = proxyOpRelay then
      (mem proxyCmdPayloadOff).map fun operand =>
        if operand = 0 then (.relayDisable,0)
        else if operand = 1 then (.relayEnable,0)
        else (.invalid,0)
    else if opcode = proxyOpBaud then
      (le32Reads mem proxyCmdPayloadOff).map fun baud =>
        if proxyBaudSupported baud then (.setBaud,baud) else (.invalid,0)
    else some (.invalid,0)

/-- `proxy_cmd_parse`, which fails at the first byte `mem` does not let it read. -/
def proxyCmdParseReads (mem : ℕ → Option UInt8) (inLen : ℕ) (out : Cmd) : Option Cmd :=
  let out := { out with kind := .none, baud := 0, ackLen := 0 }
  (framedReads mem inLen).bind fun framed =>
    if framed then
      (cmdDecodeReads mem).bind fun decoded =>
        let out := { out with kind := decoded.1, baud := decoded.2 }
        if out.kind = .invalid then some out
        else ((List.range proxyCmdPacketLen).mapM mem).map fun ack =>
          { out with ack, ackLen := proxyCmdPacketLen }
    else some out

theorem reads_foldlM {β : Type*} (f : β → UInt8 → β) (b : β) (inp : List UInt8) (n : ℕ)
    (h : n ≤ inp.length) :
    (List.range n).foldlM (fun b i => (inp[i]?).map (f b)) b = some ((inp.take n).foldl f b) := by
  induction n with
  | zero => rfl
  | succ n ih =>
    have hn : n < inp.length := by omega
    rw [List.range_succ, List.foldlM_append, ih (by omega), List.take_add_one, List.foldl_append]
    simp [List.getElem?_eq_getElem hn]

theorem reads_mapM (inp : List UInt8) (n : ℕ) (h : n ≤ inp.length) :
    (List.range n).mapM (fun i => inp[i]?) = some (inp.take n) := by
  induction n with
  | zero => rfl
  | succ n ih =>
    have hn : n < inp.length := by omega
    rw [List.range_succ, List.mapM_append, ih (by omega), List.take_add_one]
    simp [List.getElem?_eq_getElem hn]

theorem read_byte {inp : List UInt8} {i : ℕ} (h : i < inp.length) :
    inp[i]? = some (inp.getD i 0) := by
  rw [List.getD_eq_getElem _ _ h, List.getElem?_eq_getElem h]

theorem framed_reads (inp : List UInt8) :
    framedReads (fun i => inp[i]?) inp.length = some (framed inp) := by
  by_cases hlen : inp.length = proxyCmdPacketLen
  · have hpos (i : ℕ) (hi : i < proxyCmdPacketLen) : inp[i]? = some (inp.getD i 0) :=
      read_byte (by rw [hlen]; exact hi)
    have hsum : cmdChecksumReads (fun i => inp[i]?) = some (cmdChecksum inp) :=
      reads_foldlM _ 0 inp _ (by rw [hlen]; decide)
    rw [framedReads, if_neg (by simp [hlen]), hpos 0 (by decide), hpos 1 (by decide),
      hpos _ (by decide), hsum, framed, hlen]
    generalize inp.getD 0 0 = start, inp.getD 1 0 = len
    by_cases h0 : start = proxyCmdStart
    · by_cases h1 : len = UInt8.ofNat proxyCmdPacketLen
      · simp [h0, h1]
      · simp [h0, h1]
    · simp [h0]
  · simp [framedReads, framed, hlen]

theorem decode_reads (inp : List UInt8) (h : inp.length = proxyCmdPacketLen) :
    cmdDecodeReads (fun i => inp[i]?) = some (cmdDecode inp) := by
  have hpos (i : ℕ) (hi : i < proxyCmdPacketLen) : inp[i]? = some (inp.getD i 0) :=
    read_byte (by rw [h]; exact hi)
  have hdrop (i : ℕ) : (inp.drop proxyCmdPayloadOff).getD i 0 = inp.getD (proxyCmdPayloadOff+i) 0 := by
    simp [List.getD_eq_getElem?_getD]
  have hle : le32Reads (fun i => inp[i]?) proxyCmdPayloadOff =
      some (le32 (inp.drop proxyCmdPayloadOff)) := by
    rw [le32Reads, hpos _ (by decide), hpos _ (by decide), hpos _ (by decide), hpos _ (by decide)]
    simp only [le32_eq, hdrop]
    rfl
  rw [cmdDecodeReads, hpos 2 (by decide), hpos proxyCmdPayloadOff (by decide), hle, cmdDecode,
    hdrop 0]
  simp only [Option.bind_some, Option.map_some, Nat.add_zero]
  split_ifs <;> rfl

theorem parse_reads (inp : List UInt8) (out : Cmd) :
    proxyCmdParseReads (fun i => inp[i]?) inp.length out = some (proxyCmdParse inp out) := by
  rw [proxyCmdParseReads, framed_reads]
  cases hf : framed inp with
  | false => simp [proxyCmdParse, hf]
  | true =>
    have hlen : inp.length = proxyCmdPacketLen := by
      simp only [framed, Bool.and_eq_true, beq_iff_eq] at hf
      exact hf.1.1.1
    simp only [Option.bind_some, if_true, decode_reads inp hlen,
      reads_mapM inp proxyCmdPacketLen hlen.ge, Option.map_some, proxyCmdParse, hf]
    split <;> rfl

/-- Over every byte string, the parser is the documented one, and reads nothing
outside the string, unless a packet with a good operand has a byte behind it. -/
theorem command_grammar (inp : List UInt8) (out : Cmd) :
    (Documented inp (proxyCmdParse inp out) ∧
      proxyCmdParseReads (fun i => inp[i]?) inp.length out = some (proxyCmdParse inp out)) ↔
    (framed inp = true → operandOk inp = true → ∀ b ∈ unusedBytes inp, b = 0) := by
  rw [documented_iff]
  exact and_iff_left (parse_reads inp out)

def junkPacket : List UInt8 :=
  [0x22, 0x10, 0x01, 0x01, 0x5a, 0, 0, 0, 0, 0, 0, 0, 0, 0, 0, 0x8e]

theorem junk_packet_enables_relay :
    (proxyCmdParse junkPacket emptyCmd).kind = .relayEnable ∧
      (proxyCmdParse junkPacket emptyCmd).ackLen = proxyCmdPacketLen ∧
      (∀ c, junkPacket ≠ encode c) ∧ ¬ Documented junkPacket (proxyCmdParse junkPacket emptyCmd) := by
  have hne : ∀ c, junkPacket ≠ encode c := by
    intro c hc
    have h := ((encoded_iff junkPacket (by decide)).mp ⟨c,hc⟩).2
    exact absurd (h 0x5a (by decide)) (by decide)
  refine ⟨by decide,by decide,hne,?_⟩
  intro hd
  obtain ⟨c,hc⟩ := hd.actionable.mp (by decide)
  exact hne c hc

theorem sum_start {a b : UInt8} (bytes : List UInt8)
    (h : bytes.foldl (fun sum b => sum+b) a = bytes.foldl (fun sum b => sum+b) b) : a = b := by
  induction bytes generalizing a b with
  | nil => exact h
  | cons x bytes ih => exact (UInt8.add_left_inj x).mp (ih h)

/-- No other byte in the same place gives the same sum. -/
theorem sum_set {bytes : List UInt8} {i : ℕ} {b : UInt8} (hi : i < bytes.length)
    (hb : b ≠ bytes.getD i 0) (start : UInt8) :
    (bytes.set i b).foldl (fun sum b => sum+b) start ≠ bytes.foldl (fun sum b => sum+b) start := by
  induction bytes generalizing i start with
  | nil => simp at hi
  | cons x bytes ih =>
    cases i with
    | zero =>
      intro h
      exact hb ((UInt8.add_right_inj start).mp (sum_start bytes h))
    | succ i => exact ih (by simpa using hi) (by simpa using hb) (start+x)

theorem framed_checksum {inp : List UInt8} (h : framed inp = true) :
    inp.length = proxyCmdPacketLen ∧ inp.getD (proxyCmdPacketLen-1) 0 = cmdChecksum inp := by
  simp only [framed, Bool.and_eq_true, beq_iff_eq] at h
  exact ⟨h.1.1.1,h.2⟩

theorem framed_set {inp : List UInt8} {i : ℕ} {b : UInt8} (h : framed inp = true)
    (hi : i < proxyCmdPacketLen) (hb : b ≠ inp.getD i 0) : framed (inp.set i b) = false := by
  obtain ⟨hlen,hsum⟩ := framed_checksum h
  by_contra hf
  obtain ⟨_,hset⟩ := framed_checksum (by simpa using hf)
  rw [cmdChecksum, List.take_set] at hset
  by_cases hlast : i = proxyCmdPacketLen-1
  · -- the checksum itself: what it is compared with has stayed
    subst hlast
    have hget : (inp.set (proxyCmdPacketLen-1) b).getD (proxyCmdPacketLen-1) 0 = b := by
      simp [List.getD_eq_getElem?_getD, hlen, proxyCmdPacketLen]
    have hkeep : (inp.take (proxyCmdPacketLen-1)).set (proxyCmdPacketLen-1) b =
        inp.take (proxyCmdPacketLen-1) := List.set_eq_of_length_le (by simp)
    rw [hget, hkeep] at hset
    exact hb (hset.trans hsum.symm)
  · have hin : i < proxyCmdPacketLen-1 := by
      unfold proxyCmdPacketLen at *
      omega
    have hget : (inp.set i b).getD (proxyCmdPacketLen-1) 0 = inp.getD (proxyCmdPacketLen-1) 0 := by
      simp [List.getD_eq_getElem?_getD, List.getElem?_set_ne hlast]
    have htake : (inp.take (proxyCmdPacketLen-1)).getD i 0 = inp.getD i 0 := by
      simp [List.getD_eq_getElem?_getD, List.getElem?_take_of_lt hin]
    rw [hget, hsum] at hset
    refine sum_set ?_ (by rw [htake]; exact hb) 0 hset.symm
    rw [List.length_take, hlen]
    exact lt_min hin hi

/-- A packet which is one of ours is none of ours with any one byte changed. -/
theorem single_byte_corruption (inp : List UInt8) (out out' : Cmd) (i : ℕ) (b : UInt8)
    (h : (proxyCmdParse inp out).kind ≠ .none) (hi : i < proxyCmdPacketLen)
    (hb : b ≠ inp.getD i 0) :
    (proxyCmdParse (inp.set i b) out').kind = .none ∧
      (proxyCmdParse (inp.set i b) out').ackLen = 0 := by
  have hf : framed inp = true := by
    by_contra hf
    exact h (parse_unframed out (by simpa using hf)).1
  exact parse_unframed out' (framed_set hf hi hb)

theorem single_byte_corruption_operand :
    (proxyCmdParse ((relayPacket true).set 3 0) emptyCmd).kind = .none ∧
      (proxyCmdParse ((relayPacket true).set 3 0) emptyCmd).ackLen = 0 :=
  single_byte_corruption (relayPacket true) emptyCmd emptyCmd 3 0 (by decide) (by decide)
    (by decide)

end NrfProxy.CommandGrammar
