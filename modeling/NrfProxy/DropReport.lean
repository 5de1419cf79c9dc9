import NrfProxy.Firmware
import NrfProxy.SerialStream

/-!
# The report of dropped bytes

At the end of each pass the writer reads the two drop counters, one after the other
and while the ISR may add to them, and logs them where they have changed and the last
line is old enough. The age is taken on the 32-bit uptime, which wraps.
-/

set_option autoImplicit false

namespace NrfProxy.DropReport
open NrfProxy.Runs NrfProxy.MainThreads NrfProxy.SerialStream

def dropStatsRxOverflow (attempted queued : UInt32) : UInt32 :=
  if queued < attempted then attempted-queued else 0

def dropStatsShouldReport (nowMs lastReportMs intervalMs : UInt32) (countersChanged : Bool) : Bool :=
  if !countersChanged then false else decide (intervalMs ≤ nowMs-lastReportMs)

theorem put_overflow (q : Stream) (data : List UInt8) (h : data.length < 2^32) :
    (q.put data).drops = q.drops+
      dropStatsRxOverflow (UInt32.ofNat data.length)
        (UInt32.ofNat (min data.length (rxRingSize-q.ring.length))) := by
  have hle : min data.length (rxRingSize-q.ring.length) ≤ data.length := Nat.min_le_left _ _
  have hlt32 : data.length < UInt32.size := h
  generalize hn : min data.length (rxRingSize-q.ring.length) = n at hle
  simp only [Stream.put, hn, dropStatsRxOverflow]
  congr 1
  split
  · exact UInt32.ofNat_sub hle
  · rename_i hlt
    have hge : data.length ≤ n := by
      rw [UInt32.lt_iff_toNat_lt, UInt32.toNat_ofNat_of_lt' hlt32,
        UInt32.toNat_ofNat_of_lt' (Nat.lt_of_le_of_lt hle hlt32)] at hlt
      exact Nat.le_of_not_lt hlt
    simp [Nat.sub_eq_zero_of_le hge]

def dropReportIntervalMs : ℕ := 10000

def uptime32 (now : ℕ) : UInt32 := UInt32.ofNat now

structure Line where
  rx : UInt32
  tx : UInt32
  txErr : ℤ
  now : ℕ
  deriving DecidableEq, Repr

inductive Pc where
  | start
  | readTx (rx : UInt32)
  | readNow (rx tx : UInt32)
  | readErr (rx tx : UInt32) (now : ℕ)
  | done (rx tx : UInt32) (now : ℕ)
  deriving DecidableEq, Repr

structure State where
  fw : Firmware.State
  pc : Pc
  lastRx : UInt32
  lastTx : UInt32
  lastReportMs : UInt32
  log : List Line
  deriving DecidableEq, Repr

def init (locked : Bool) (rate : UInt32) : State where
  fw := Firmware.init locked rate
  pc := .start
  lastRx := 0
  lastTx := 0
  lastReportMs := 0
  log := []

/-- `report` is one read of the function, the last of which logs. -/
inductive Label where
  | fw (a : Firmware.Label)
  | report
  deriving DecidableEq, Repr

def reportNext (s : State) : Option State :=
  match s.pc with
  | .start => some { s with pc := .readTx s.fw.main.stream.drops }
  | .readTx rx => some { s with pc := .readNow rx s.fw.uart.bridge.dropsUartTx }
  | .readNow rx tx =>
    let now := s.fw.main.main.now
    let changed := rx != s.lastRx || tx != s.lastTx
    some { s with
      pc :=
        if dropStatsShouldReport (uptime32 now) s.lastReportMs (UInt32.ofNat dropReportIntervalMs)
          changed then .readErr rx tx now else .done rx tx now }
  | .readErr rx tx now =>
    some { s with
      pc := .done rx tx now
      lastRx := rx
      lastTx := tx
      lastReportMs := uptime32 now
      log := s.log++[⟨rx,tx,s.fw.uart.bridge.lastUartTxErr,now⟩] }
  | .done _ _ _ => none

def ends (s : State) : Firmware.Label → Bool
  | .main (.writer _ _) => s.fw.main.writer == .report
  | _ => false

def step (port : Bool) (s : State) : Label → Option State
  | .fw a =>
    if ends s a then
      match s.pc with
      | .done _ _ _ => (Firmware.step port s.fw a).map (fun f => { s with fw := f, pc := .start })
      | _ => none
    else (Firmware.step port s.fw a).map (fun f => { s with fw := f })
  | .report => if s.fw.main.writer = .report then reportNext s else none

section Steps

variable {port : Bool} {s t : State}

theorem step_fw {a : Firmware.Label} (h : step port s (.fw a) = some t) :
    ∃ f, Firmware.step port s.fw a = some f ∧
      (t = { s with fw := f } ∨ ∃ rx tx now, s.pc = .done rx tx now ∧
        t = { s with fw := f, pc := .start }) := by
  simp only [step] at h
  split at h
  · split at h
    · rename_i rx tx now hp
      obtain ⟨f,hf,rfl⟩ := Option.map_eq_some_iff.mp h
      exact ⟨f,hf,Or.inr ⟨rx,tx,now,hp,rfl⟩⟩
    · contradiction
  · obtain ⟨f,hf,rfl⟩ := Option.map_eq_some_iff.mp h
    exact ⟨f,hf,Or.inl rfl⟩

theorem step_report : step port s .report = some t ↔
    s.fw.main.writer = .report ∧ reportNext s = some t := by
  simp [step]

inductive ReportMove (s : State) : State → Prop where
  | readRx (h : s.pc = .start) : ReportMove s { s with pc := .readTx s.fw.main.stream.drops }
  | readTx {rx : UInt32} (h : s.pc = .readTx rx) :
      ReportMove s { s with pc := .readNow rx s.fw.uart.bridge.dropsUartTx }
  | due {rx tx : UInt32} (h : s.pc = .readNow rx tx) (hc : (rx,tx) ≠ (s.lastRx,s.lastTx))
      (hd : UInt32.ofNat dropReportIntervalMs ≤ uptime32 s.fw.main.main.now-s.lastReportMs) :
      ReportMove s { s with pc := .readErr rx tx s.fw.main.main.now }
  | silent {rx tx : UInt32} (h : s.pc = .readNow rx tx)
      (hd : (rx,tx) = (s.lastRx,s.lastTx) ∨
        uptime32 s.fw.main.main.now-s.lastReportMs < UInt32.ofNat dropReportIntervalMs) :
      ReportMove s { s with pc := .done rx tx s.fw.main.main.now }
  | log {rx tx : UInt32} {now : ℕ} (h : s.pc = .readErr rx tx now) :
      ReportMove s { s with
        pc := .done rx tx now
        lastRx := rx
        lastTx := tx
        lastReportMs := uptime32 now
        log := s.log++[⟨rx,tx,s.fw.uart.bridge.lastUartTxErr,now⟩] }

theorem report_move (h : reportNext s = some t) : ReportMove s t := by
  cases hp : s.pc with
  | start =>
    simp only [reportNext, hp, Option.some.injEq] at h
    exact h ▸ .readRx hp
  | readTx rx =>
    simp only [reportNext, hp, Option.some.injEq] at h
    exact h ▸ .readTx hp
  | readNow rx tx =>
    simp only [reportNext, hp, Option.some.injEq, dropStatsShouldReport] at h
    obtain rfl := h
    by_cases hc : rx = s.lastRx ∧ tx = s.lastTx
    · have hs : ReportMove s _ := .silent hp (Or.inl (by rw [hc.1, hc.2]))
      simpa [hc] using hs
    · have hc' : (rx != s.lastRx || tx != s.lastTx) = true := by
        by_contra hno
        simp_all
      rw [hc']
      by_cases hd : UInt32.ofNat dropReportIntervalMs ≤ uptime32 s.fw.main.main.now-s.lastReportMs
      · have hs : ReportMove s _ := .due hp (fun he => hc (Prod.mk.inj he)) hd
        simpa [hd] using hs
      · have hs : ReportMove s _ := .silent hp (Or.inr (UInt32.not_le.mp hd))
        simpa [hd] using hs
  | readErr rx tx now =>
    simp only [reportNext, hp, Option.some.injEq] at h
    exact h ▸ .log hp
  | done rx tx now => simp [reportNext, hp] at h

end Steps

/-- How old the last line is, on the wrapped clock. -/
theorem uptime_since {now last : ℕ} (h : last ≤ now) :
    (uptime32 now-uptime32 last).toNat = (now-last)%2^32 := by
  rw [uptime32, uptime32, UInt32.toNat_sub, UInt32.toNat_ofNat', UInt32.toNat_ofNat']
  omega

theorem due_iff {now last : ℕ} (h : last ≤ now) :
    UInt32.ofNat dropReportIntervalMs ≤ uptime32 now-uptime32 last ↔
      dropReportIntervalMs ≤ (now-last)%2^32 := by
  rw [UInt32.le_iff_toNat_le, uptime_since h]
  rfl

-- a line of 2^32 ms ago is a new one
example : dropStatsShouldReport (uptime32 (2^32+10000)) (uptime32 10000) 10000 true = false := by
  decide

def boot : Line := ⟨0,0,0,0⟩

def last (log : List Line) : Line := log.getLastD boot

def totals (l : Line) : UInt32 × UInt32 := (l.rx,l.tx)

/-- A line tells of a change, ten seconds after the one before at least. -/
def Follows (a b : Line) : Prop := a.now+dropReportIntervalMs ≤ b.now ∧ totals a ≠ totals b

section Run

variable (port locked : Bool) (rate : UInt32)

/-- The firmware has been so at a moment of the run. -/
def Once (es : List Label) (P : Firmware.State → Prop) : Prop :=
  ∃ xs u, xs <+: es ∧ run (step port) xs (init locked rate) = some u ∧ P u.fw

/-- How many bytes the RX ring has had no room for, and the counter of the TX pump. -/
def CountedRx (es : List Label) (rx : UInt32) : Prop :=
  Once port locked rate es (fun f => rx = UInt32.ofNat (overflowed f.main.stream))

def CountedTx (es : List Label) (tx : UInt32) : Prop :=
  Once port locked rate es (fun f => tx = f.uart.bridge.dropsUartTx)

def Counted (es : List Label) (rx tx : UInt32) : Prop :=
  CountedRx port locked rate es rx ∧ CountedTx port locked rate es tx

/-- What the report knows at its places, with this log and at this uptime. -/
def Knows (es : List Label) (log : List Line) (uptime : ℕ) : Pc → Prop
  | .start => True
  | .readTx rx => CountedRx port locked rate es rx
  | .readNow rx tx => Counted port locked rate es rx tx
  | .readErr rx tx now => Counted port locked rate es rx tx ∧ now ≤ uptime ∧
      Follows (last log) ⟨rx,tx,0,now⟩
  | .done rx tx now => Counted port locked rate es rx tx ∧
      ((rx,tx) = totals (last log) ∨ (now-(last log).now)%2^32 < dropReportIntervalMs)

structure Told (es : List Label) (s : State) : Prop where
  drops : s.fw.main.stream.drops = UInt32.ofNat (overflowed s.fw.main.stream)
  statics : (s.lastRx,s.lastTx) = totals (last s.log)
  lastMs : s.lastReportMs = uptime32 (last s.log).now
  clock : (last s.log).now ≤ s.fw.main.main.now
  spaced : (boot::s.log).IsChain Follows
  lines : ∀ l ∈ s.log, Counted port locked rate es l.rx l.tx
  knows : Knows port locked rate es s.log s.fw.main.main.now s.pc

variable {port locked rate} {es : List Label} {s t : State} {a : Label}

theorem Once.snoc {P : Firmware.State → Prop} (h : Once port locked rate es P) (a : Label) :
    Once port locked rate (es++[a]) P := by
  obtain ⟨xs,u,hx,hu⟩ := h
  exact ⟨xs,u,hx.trans (List.prefix_append es [a]),hu⟩

theorem once_now {P : Firmware.State → Prop} (h : run (step port) es (init locked rate) = some s)
    (hp : P s.fw) (a : Label) : Once port locked rate (es++[a]) P :=
  ⟨es,s,List.prefix_append es [a],h,hp⟩

theorem CountedRx.snoc {rx : UInt32} (h : CountedRx port locked rate es rx) (a : Label) :
    CountedRx port locked rate (es++[a]) rx :=
  Once.snoc h a

theorem Counted.snoc {rx tx : UInt32} (h : Counted port locked rate es rx tx) (a : Label) :
    Counted port locked rate (es++[a]) rx tx :=
  ⟨h.1.snoc a,Once.snoc h.2 a⟩

theorem init_told : Told port locked rate [] (init locked rate) :=
  ⟨rfl,rfl,rfl,le_refl _,by simp [init],by simp [init],trivial⟩

theorem writerNext_drops {m n : MainState.Main} {q r : Stream} {k : ℕ} {err : ℤ} {p p' : WriterPc}
    (h : writerNext m q k err p = some (n,r,p')) :
    r.drops = q.drops ∧ overflowed r = overflowed q := by
  cases writer_move h <;> exact ⟨rfl,rfl⟩

theorem fw_drops {f g : Firmware.State} {b : Firmware.Label} (h : Firmware.step port f b = some g)
    (hd : f.main.stream.drops = UInt32.ofNat (overflowed f.main.stream)) :
    g.main.stream.drops = UInt32.ofNat (overflowed g.main.stream) := by
  refine invariant (I := fun x => x.stream.drops = UInt32.ofNat (overflowed x.stream)) hd ?_
    (Firmware.main_part port f b g h)
  intro x c y hx hst
  by_cases hw : thread c = .writer
  · cases c with
    | writer k err =>
      obtain ⟨n,q,pc,hn,rfl⟩ := step_writer.mp hst
      obtain ⟨hdrops,hover⟩ := writerNext_drops hn
      show q.drops = UInt32.ofNat (overflowed q)
      rw [hdrops, hover]
      exact hx
    | _ => simp [thread] at hw
  by_cases hi : thread c = .isr
  · cases c with
    | ready data =>
      obtain ⟨_,_,rfl⟩ := step_ready.mp hst
      exact put_drops _ data hx
    | give =>
      obtain ⟨_,rfl⟩ := step_give.mp hst
      exact hx
    | _ => simp [thread] at hi
  · rw [(ThreadInvariant.step_frame hst).stream hw hi]
    exact hx

theorem fw_now {f g : Firmware.State} {b : Firmware.Label} (h : Firmware.step port f b = some g) :
    f.main.main.now ≤ g.main.main.now :=
  invariant (I := fun x => f.main.main.now ≤ x.main.now) (le_refl _)
    (fun _ _ _ hx hst => le_trans hx (ThreadInvariant.step_now hst)) (Firmware.main_part port f b g h)

theorem Knows.snoc {log : List Line} {m n : ℕ} {p : Pc} (h : Knows port locked rate es log m p)
    (hn : m ≤ n) (a : Label) : Knows port locked rate (es++[a]) log n p := by
  cases p with
  | start => trivial
  | readTx rx => exact CountedRx.snoc h a
  | readNow rx tx => exact Counted.snoc h a
  | readErr rx tx now =>
    obtain ⟨hc,hnow,hf⟩ := h
    exact ⟨hc.snoc a,le_trans hnow hn,hf⟩
  | done rx tx now => exact ⟨h.1.snoc a,h.2⟩

theorem spaced_snoc {log : List Line} {l : Line} (hs : (boot::log).IsChain Follows)
    (hl : Follows (last log) l) : (boot::(log++[l])).IsChain Follows := by
  refine List.isChain_append.mpr ⟨hs,List.isChain_singleton l,fun x hx y hy => ?_⟩
  rw [List.getLast?_cons] at hx
  obtain rfl : last log = x := by simpa [last] using hx
  obtain rfl : l = y := by simpa using hy
  exact hl

theorem fw_told {b : Firmware.Label} (hs : Told port locked rate es s)
    (h : step port s (.fw b) = some t) : Told port locked rate (es++[.fw b]) t := by
  obtain ⟨f,hf,ht⟩ := step_fw h
  have hdrops := fw_drops hf hs.drops
  have hnow := fw_now hf
  have hclock : (last s.log).now ≤ f.main.main.now := le_trans hs.clock hnow
  have hlines : ∀ l ∈ s.log, Counted port locked rate (es++[.fw b]) l.rx l.tx :=
    fun l hl => (hs.lines l hl).snoc _
  rcases ht with rfl | ⟨rx,tx,now,_,rfl⟩
  · exact ⟨hdrops,hs.statics,hs.lastMs,hclock,hs.spaced,hlines,hs.knows.snoc hnow _⟩
  · exact ⟨hdrops,hs.statics,hs.lastMs,hclock,hs.spaced,hlines,trivial⟩

theorem report_told (hs : Told port locked rate es s)
    (hr : run (step port) es (init locked rate) = some s) (h : step port s .report = some t) :
    Told port locked rate (es++[.report]) t := by
  obtain ⟨_,hn⟩ := step_report.mp h
  have hlines : ∀ l ∈ s.log, Counted port locked rate (es++[.report]) l.rx l.tx :=
    fun l hl => (hs.lines l hl).snoc _
  have hkeep {p : Pc} (hk : Knows port locked rate (es++[.report]) s.log s.fw.main.main.now p) :
      Told port locked rate (es++[.report]) { s with pc := p } :=
    ⟨hs.drops,hs.statics,hs.lastMs,hs.clock,hs.spaced,hlines,hk⟩
  have hknows := hs.knows
  cases report_move hn with
  | readRx hp =>
    have hrx : CountedRx port locked rate (es++[.report]) s.fw.main.stream.drops :=
      once_now hr hs.drops _
    exact hkeep hrx
  | @readTx rx hp =>
    rw [hp] at hknows
    have htx : CountedTx port locked rate (es++[.report]) s.fw.uart.bridge.dropsUartTx :=
      once_now (P := fun f => s.fw.uart.bridge.dropsUartTx = f.uart.bridge.dropsUartTx) hr rfl _
    exact hkeep ⟨CountedRx.snoc hknows _,htx⟩
  | @due rx tx hp hc hd =>
    rw [hp] at hknows
    rw [hs.lastMs, due_iff hs.clock] at hd
    rw [hs.statics] at hc
    have hold := Nat.mod_le (s.fw.main.main.now-(last s.log).now) (2^32)
    have hclock := hs.clock
    refine hkeep ⟨Counted.snoc hknows _,le_refl _,?_,fun he => hc he.symm⟩
    show (last s.log).now+dropReportIntervalMs ≤ s.fw.main.main.now
    omega
  | @silent rx tx hp hd =>
    rw [hp] at hknows
    rw [hs.lastMs, ← UInt32.not_le, due_iff hs.clock, Nat.not_le, hs.statics] at hd
    exact hkeep ⟨Counted.snoc hknows _,hd⟩
  | @log rx tx now hp =>
    rw [hp] at hknows
    obtain ⟨hc,hnow,hf⟩ := hknows
    have hlast : last (s.log++[⟨rx,tx,s.fw.uart.bridge.lastUartTxErr,now⟩]) =
        ⟨rx,tx,s.fw.uart.bridge.lastUartTxErr,now⟩ := by simp [last]
    refine ⟨hs.drops,by rw [hlast]; rfl,by rw [hlast],by rw [hlast]; exact hnow,
      spaced_snoc hs.spaced hf,?_,hc.snoc _,Or.inl (by rw [hlast]; rfl)⟩
    intro l hl
    rcases List.mem_append.mp hl with hl | hl
    · exact hlines l hl
    · obtain rfl := List.mem_singleton.mp hl
      exact hc.snoc _

theorem run_told (h : run (step port) es (init locked rate) = some s) :
    Told port locked rate es s := by
  refine history (C := fun _ _ => True) init_told ?_ h (allSteps_true _ _)
  intro es s a t hr hs _ ht
  cases a with
  | fw b => exact fw_told hs ht
  | report => exact report_told hs hr ht

end Run

def fwLabels (_ : State) : Label → List Firmware.Label
  | .fw a => [a]
  | .report => []

theorem fw_part (port : Bool) (s : State) (a : Label) (t : State) (h : step port s a = some t) :
    run (Firmware.step port) (fwLabels s a) s.fw = some t.fw := by
  cases a with
  | fw a =>
    obtain ⟨f,hf,ht⟩ := step_fw h
    rcases ht with rfl | ⟨_,_,_,_,rfl⟩ <;> simp [fwLabels, run, hf]
  | report =>
    obtain ⟨_,hn⟩ := step_report.mp h
    cases report_move hn <;> rfl

/-- Lines are ten seconds apart at least, each tells of a change, and its totals are
those of a moment of the run. A pass whose totals are not in the last line has found it
younger than that, on the clock that wraps. The firmware does not see the report. -/
theorem drops_reported (port locked : Bool) (rate : UInt32) (es : List Label) (s : State)
    (h : run (step port) es (init locked rate) = some s) :
    (boot::s.log).IsChain Follows ∧
    (∀ l ∈ s.log, Counted port locked rate es l.rx l.tx) ∧
    (∀ rx tx now, s.pc = .done rx tx now → Counted port locked rate es rx tx ∧
      ((rx,tx) = totals (last s.log) ∨
        (now-(last s.log).now)%2^32 < dropReportIntervalMs)) ∧
    run (Firmware.step port) (trace (step port) fwLabels es (init locked rate))
      (Firmware.init locked rate) = some s.fw := by
  have hs := run_told h
  refine ⟨hs.spaced,hs.lines,fun rx tx now hp => ?_,run_part (fw_part port) h⟩
  have hknows := hs.knows
  rw [hp] at hknows
  exact hknows

def refusedWrite : List Firmware.Label :=
  Firmware.linked++[.main (.receive [1]), .main (.rx 0), .call 0, .call 0, .call 0, .call (-5),
    .call 0, .call 0, .call 0, .wait 10000, .main (.writer 0 0), .main (.writer 0 0)]

def oneLine : State :=
  { init false 115200 with
    fw :=
      ⟨{ Firmware.secured with
          main := { Firmware.secured.main with now := 10000, rxDataReady := false }
          writer := .report },
        { UartBridge.init 115200 with
          bridge :=
            { (UartBridge.init 115200).bridge with
              now := 10000
              txBuf := [1]
              dropsUartTx := 1
              lastUartTxErr := -5 } }⟩
    pc := .done 0 1 10000
    lastTx := 1
    lastReportMs := 10000
    log := [⟨0,1,-5,10000⟩] }

theorem drops_reported_one_line :
    (boot::oneLine.log).IsChain Follows ∧
      ∀ l ∈ oneLine.log, Counted true false 115200
        (refusedWrite.map .fw++List.replicate 4 .report) l.rx l.tx :=
  have h := drops_reported true false 115200 (refusedWrite.map .fw++List.replicate 4 .report)
    oneLine (by decide)
  ⟨h.1,h.2.1⟩

end NrfProxy.DropReport
