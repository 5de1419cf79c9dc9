import NrfProxy.AdvertiserInvariant
import NrfProxy.Device

/-!
# The parts of the device

The data paths and the advertising threads share the statics of main.c. A step of
the device is steps of the data paths and, beside them, a write to the variables
of the advertising threads, so that an invariant which ignores these is one of the
device. Seen from the radio, a run of the device is a run of the advertising
threads, which see neither the relay nor the bridge.
-/

set_option autoImplicit false

namespace NrfProxy.DeviceParts
open NrfProxy.Runs NrfProxy.Delayable NrfProxy.MainState NrfProxy.MainThreads
open NrfProxy.ThreadInvariant NrfProxy.Advertiser NrfProxy.Simulation NrfProxy.Device

/-- A write to the variables of the advertising threads. -/
def AdvWrite (m n : Main) : Prop :=
  ∃ active mode slow retry, n =
    { m with advActive := active, lockedMode := mode, advSlowWork := slow, advRetryWork := retry }

theorem advWrite_refl (m : Main) : AdvWrite m m :=
  ⟨m.advActive,m.lockedMode,m.advSlowWork,m.advRetryWork,rfl⟩

theorem radioMove_writes {r r' : Radio} (h : RadioMove r r') : AdvWrite r.main r'.main := by
  cases h with
  | @start slow err _ h =>
    unfold btLeAdvStart at h
    split at h
    · obtain ⟨_,hr⟩ := Option.ite_none_right_eq_some.mp h
      obtain rfl := Option.some.inj hr
      exact advWrite_refl r.main
    · obtain rfl := Option.some.inj h
      exact advWrite_refl r.main
  | keep | stop => exact advWrite_refl r.main
  | @flag active => exact ⟨active,r.main.lockedMode,r.main.advSlowWork,r.main.advRetryWork,rfl⟩
  | retry => exact ⟨r.main.advActive,r.main.lockedMode,r.main.advSlowWork,_,rfl⟩
  | slow | leave => exact ⟨r.main.advActive,r.main.lockedMode,_,r.main.advRetryWork,rfl⟩

theorem refreshNext_writes (r : Radio) (err : ℤ) (pc : RefreshPc) :
    AdvWrite r.main (refreshNext r err pc).1.main := by
  cases pc with
  | count | clear => exact advWrite_refl r.main
  | add rest bonds => cases rest <;> exact advWrite_refl r.main
  | setMode bonds =>
    exact ⟨r.main.advActive,decide (0 < bonds),r.main.advSlowWork,r.main.advRetryWork,rfl⟩

theorem pcNext_writes {r r' : Radio} {err : ℤ} {sync : Bool} {pc : Pc} {q : Option Pc}
    (h : pcNext r err sync pc = some (r',q)) : AdvWrite r.main r'.main := by
  cases pc with
  | refresh pc =>
    obtain ⟨rfl,_⟩ := Prod.mk.inj (Option.some.inj h)
    exact refreshNext_writes r err pc
  | start pc =>
    simp only [pcNext, Option.map_eq_some_iff, Prod.mk.injEq] at h
    obtain ⟨⟨d,p⟩,hd,rfl,_⟩ := h
    exact radioMove_writes (startNext_radio hd)
  | slow pc =>
    simp only [pcNext, Option.map_eq_some_iff, Prod.mk.injEq] at h
    obtain ⟨⟨d,p⟩,hd,rfl,_⟩ := h
    exact radioMove_writes (slowNext_radio hd)

theorem setItem_writes (m : Main) (v : Work) (w : Advertiser.Item) :
    AdvWrite m (Advertiser.setItem m v w) := by
  cases w with
  | advSlow => exact ⟨m.advActive,m.lockedMode,v,m.advRetryWork,rfl⟩
  | advRetry => exact ⟨m.advActive,m.lockedMode,m.advSlowWork,v,rfl⟩

theorem adv_writes {v w : Advertiser.State} {a : Advertiser.Label} (ha : ownsAdv a = true)
    (h : Advertiser.step v a = some w) : AdvWrite v.radio.main w.radio.main ∧ w.host = v.host := by
  cases a with
  | expire i =>
    obtain ⟨v',_,rfl⟩ := Advertiser.step_expire.mp h
    exact ⟨setItem_writes _ v' i,rfl⟩
  | enter i =>
    obtain ⟨_,v',_,rfl⟩ := Advertiser.step_enter.mp h
    exact ⟨setItem_writes _ (begun v' i) i,rfl⟩
  | run T err sync =>
    obtain ⟨pc,r,q,_,_,hn,rfl⟩ := Advertiser.step_run.mp h
    exact ⟨pcNext_writes hn,rfl⟩
  | recycled =>
    obtain ⟨_,_,rfl⟩ := Advertiser.step_recycled.mp h
    exact ⟨advWrite_refl _,rfl⟩
  | _ => simp [ownsAdv] at ha

variable {port : Bool} {s t : Device.State} {a : Device.Label}

theorem step_refresh_some {err : ℤ} (h : Device.step port s (.refresh err) = some t) :
    ∃ pc, s.refresh = some pc ∧
      t = setAdv s
        ⟨(refreshNext (advView s).radio err pc).1,s.threads,
          (refreshNext (advView s).radio err pc).2.elim (.callback .idle) .refresh⟩ := by
  obtain ⟨hr,v,hv,rfl⟩ := Device.step_refresh.mp h
  obtain ⟨pc,hpc⟩ := Option.isSome_iff_exists.mp hr
  obtain ⟨_,r,host,hn,rfl⟩ := Advertiser.step_host.mp hv
  have hh : (advView s).host = .refresh pc := by simp [advView, task, hpc]
  rw [hh] at hn
  obtain ⟨rfl,rfl⟩ := Prod.mk.inj (Option.some.inj hn)
  exact ⟨pc,hpc,rfl⟩

def fwLabels (s : Device.State) : Device.Label → List Firmware.Label
  | .wait ms => [.wait ms]
  | .fw a => [a]
  | .connected err => [.main (.connect err)]
  | .security level err => [.main (.security level err)]
  | .disconnected => [.main .disconnect]
  | .host => [.main .host]
  | .returned => if s.obj = .dropped then [.main .recycle] else []
  | .adv _ | .attempt _ | .pairingComplete | .refresh _ => []

theorem fw_part (h : Device.step port s a = some t) :
    ∃ f m, run (Firmware.step port) (fwLabels s a) s.fw = some f ∧ AdvWrite f.main.main m ∧
      t.fw = setMain f m := by
  have hown {f : Firmware.State} {b : Firmware.Label} (hf : Firmware.step port s.fw b = some f) :
      ∃ g m, run (Firmware.step port) [b] s.fw = some g ∧ AdvWrite g.main.main m ∧
        f = setMain g m :=
    ⟨f,f.main.main,by simp [run, hf],advWrite_refl _,rfl⟩
  have hkeep : ∃ g m, run (Firmware.step port) [] s.fw = some g ∧ AdvWrite g.main.main m ∧
      s.fw = setMain g m :=
    ⟨s.fw,s.fw.main.main,rfl,advWrite_refl _,rfl⟩
  cases a with
  | wait ms =>
    obtain ⟨f,hf,rfl⟩ := Device.step_wait.mp h
    exact hown hf
  | fw a =>
    obtain ⟨_,_,_,f,hf,rfl⟩ := step_fw.mp h
    exact hown hf
  | adv a =>
    obtain ⟨ho,_,v,hv,rfl⟩ := step_adv.mp h
    exact ⟨s.fw,v.radio.main,rfl,(adv_writes ho hv).1,rfl⟩
  | attempt peer =>
    obtain ⟨_,_,_,_,rfl⟩ := Device.step_attempt.mp h
    exact hkeep
  | connected err =>
    obtain ⟨_,_,f,hf,rfl⟩ := Device.step_connected.mp h
    exact hown hf
  | security level err =>
    obtain ⟨_,_,f,hf,rfl⟩ := Device.step_security.mp h
    exact hown hf
  | pairingComplete =>
    obtain ⟨_,_,rfl⟩ := Device.step_pairingComplete.mp h
    exact hkeep
  | disconnected =>
    obtain ⟨_,_,f,hf,rfl⟩ := Device.step_disconnected.mp h
    exact hown hf
  | host =>
    obtain ⟨_,f,hf,rfl⟩ := Device.step_host.mp h
    exact hown hf
  | refresh err =>
    obtain ⟨pc,_,rfl⟩ := step_refresh_some h
    exact ⟨s.fw,_,rfl,refreshNext_writes _ err pc,rfl⟩
  | returned =>
    obtain ⟨_,ht⟩ := Device.step_returned.mp h
    rcases ht with ⟨ho,rfl⟩ | ⟨ho,f,hf,rfl⟩
    · simpa [fwLabels, ho] using hkeep
    · simpa [fwLabels, ho] using hown hf

/-- An invariant of the data paths which no write to the variables of the
advertising threads can break is one of the device. -/
theorem fw_invariant {I : Firmware.State → Prop} {bonds : List ℕ} {rate : UInt32}
    (h0 : I (Firmware.init false rate))
    (hstep : ∀ f b g, I f → Firmware.step port f b = some g → I g)
    (hwrite : ∀ f m, I f → AdvWrite f.main.main m → I (setMain f m)) {es : List Device.Label}
    (h : run (Device.step port) es (Device.init bonds rate) = some s) : I s.fw := by
  refine invariant (I := fun s => I s.fw) h0 (fun s a t hi hst => ?_) h
  obtain ⟨f,m,hf,hw,ht⟩ := fw_part hst
  rw [ht]
  exact hwrite f m (invariant hi (fun f b g => hstep f b g) hf) hw

section Data

variable {m m' n : Main}

theorem hostNext_same {p q : HostPc} (hw : AdvWrite m m') (h : hostNext m p = some (n,q)) :
    ∃ n', hostNext m' p = some (n',q) ∧ AdvWrite n n' := by
  obtain ⟨active,mode,slow,retry,rfl⟩ := hw
  cases p with
  | idle => simp [hostNext] at h
  | connLock err =>
    obtain ⟨rfl,rfl⟩ := Prod.mk.inj (Option.some.inj h)
    refine ⟨_,rfl,false,mode,slow,retry,?_⟩
    unfold connectedLock
    split <;> rfl
  | connCancelSlow =>
    obtain ⟨rfl,rfl⟩ := Prod.mk.inj (Option.some.inj h)
    exact ⟨_,rfl,active,mode,cancel slow,retry,rfl⟩
  | discLock =>
    obtain ⟨rfl,rfl⟩ := Prod.mk.inj (Option.some.inj h)
    refine ⟨_,rfl,active,mode,slow,retry,?_⟩
    unfold disconnectedLock
    split <;> rfl
  | _ =>
    obtain ⟨rfl,rfl⟩ := Prod.mk.inj (Option.some.inj h)
    exact ⟨_,rfl,active,mode,slow,retry,rfl⟩

theorem relayApply_same (port enable : Bool) (hw : AdvWrite m m') :
    AdvWrite (relayApply port enable m) (relayApply port enable m') := by
  obtain ⟨active,mode,slow,retry,rfl⟩ := hw
  refine ⟨active,mode,slow,retry,?_⟩
  unfold relayApply
  split <;> rfl

theorem relayGraceDecide_same (port : Bool) (hw : AdvWrite m m') :
    AdvWrite (relayGraceDecide port m) (relayGraceDecide port m') := by
  have hback : (!m'.encrypted && m'.relayEnabled) = (!m.encrypted && m.relayEnabled) := by
    obtain ⟨_,_,_,_,rfl⟩ := hw
    rfl
  unfold relayGraceDecide
  rw [hback]
  split
  · exact relayApply_same port false hw
  · exact hw

theorem finishRelayGrace_same (hw : AdvWrite m m') :
    AdvWrite (finishRelayGrace m) (finishRelayGrace m') := by
  obtain ⟨active,mode,slow,retry,rfl⟩ := hw
  exact ⟨active,mode,slow,retry,rfl⟩

theorem rxNext_same {port : Bool} {err : ℤ} {p q : RxPc} (hw : AdvWrite m m')
    (h : rxNext port m err p = some (n,q)) :
    ∃ n', rxNext port m' err p = some (n',q) ∧ AdvWrite n n' := by
  cases p with
  | idle => simp [rxNext] at h
  | relayApply enable ack =>
    obtain ⟨rfl,rfl⟩ := Prod.mk.inj (Option.some.inj h)
    exact ⟨_,rfl,relayApply_same port enable hw⟩
  | _ =>
    obtain ⟨active,mode,slow,retry,rfl⟩ := hw
    obtain ⟨rfl,rfl⟩ := Prod.mk.inj (Option.some.inj h)
    exact ⟨_,rfl,active,mode,slow,retry,rfl⟩

theorem workNext_same {port : Bool} {p q : WorkPc} (hw : AdvWrite m m')
    (h : workNext port m p = some (n,q)) :
    ∃ n', workNext port m' p = some (n',q) ∧ AdvWrite n n' := by
  cases p with
  | idle => simp [workNext] at h
  | graceDecide =>
    obtain ⟨rfl,rfl⟩ := Prod.mk.inj (Option.some.inj h)
    exact ⟨_,rfl,finishRelayGrace_same (relayGraceDecide_same port hw)⟩
  | watchdogLock =>
    obtain ⟨active,mode,slow,retry,rfl⟩ := hw
    simp only [workNext] at h ⊢
    split at h <;> rename_i hc <;> obtain ⟨rfl,rfl⟩ := Prod.mk.inj (Option.some.inj h)
    · exact ⟨_,congrArg some (if_pos hc),active,mode,slow,retry,rfl⟩
    · exact ⟨_,congrArg some (if_neg hc),active,mode,slow,retry,rfl⟩
  | _ =>
    obtain ⟨active,mode,slow,retry,rfl⟩ := hw
    obtain ⟨rfl,rfl⟩ := Prod.mk.inj (Option.some.inj h)
    exact ⟨_,rfl,active,mode,slow,retry,rfl⟩

theorem writerNext_same {q r : MainThreads.Stream} {k : ℕ} {err : ℤ} {p p' : WriterPc}
    (hw : AdvWrite m m') (h : writerNext m q k err p = some (n,r,p')) :
    ∃ n', writerNext m' q k err p = some (n',r,p') ∧ AdvWrite n n' := by
  obtain ⟨active,mode,slow,retry,rfl⟩ := hw
  cases p with
  | take =>
    simp only [writerNext, Option.ite_none_right_eq_some, Option.some.injEq, Prod.mk.injEq] at h ⊢
    obtain ⟨hr,rfl,rfl,rfl⟩ := h
    exact ⟨_,⟨hr,rfl,rfl,rfl⟩,active,mode,slow,retry,rfl⟩
  | snapshot =>
    simp only [writerNext] at h ⊢
    split at h <;> rename_i hf <;> obtain ⟨rfl,hq⟩ := Prod.mk.inj (Option.some.inj h) <;>
      obtain ⟨rfl,rfl⟩ := Prod.mk.inj hq
    · exact ⟨_,congrArg some (if_pos hf),active,mode,slow,retry,rfl⟩
    · exact ⟨_,congrArg some (if_neg hf),active,mode,slow,retry,rfl⟩
  | drainClaim state =>
    simp only [writerNext, Option.ite_none_left_eq_some, Option.some.injEq, Prod.mk.injEq] at h ⊢
    obtain ⟨hn,rfl,rfl,rfl⟩ := h
    exact ⟨_,⟨hn,rfl,rfl,rfl⟩,active,mode,slow,retry,rfl⟩
  | mtu =>
    simp only [writerNext, Option.ite_none_right_eq_some, Option.some.injEq, Prod.mk.injEq] at h ⊢
    obtain ⟨hn,rfl,rfl,rfl⟩ := h
    exact ⟨_,⟨hn,rfl,rfl,rfl⟩,active,mode,slow,retry,rfl⟩
  | claim maxSend =>
    simp only [writerNext, Option.ite_none_left_eq_some, Option.some.injEq, Prod.mk.injEq] at h ⊢
    obtain ⟨hn,rfl,rfl,rfl⟩ := h
    exact ⟨_,⟨hn,rfl,rfl,rfl⟩,active,mode,slow,retry,rfl⟩
  | _ =>
    obtain ⟨rfl,hq⟩ := Prod.mk.inj (Option.some.inj h)
    obtain ⟨rfl,rfl⟩ := Prod.mk.inj hq
    exact ⟨_,rfl,active,mode,slow,retry,rfl⟩

theorem main_same {port : Bool} {x y : MainThreads.State} {c : MainThreads.Label}
    (hw : AdvWrite x.main m) (h : MainThreads.step port x c = some y) :
    ∃ n, MainThreads.step port { x with main := m } c = some { y with main := n } ∧
      AdvWrite y.main n := by
  cases c with
  | wait ms =>
    obtain rfl := MainThreads.step_wait.mp h
    obtain ⟨active,mode,slow,retry,rfl⟩ := hw
    exact ⟨_,MainThreads.step_wait.mpr rfl,active,mode,slow,retry,rfl⟩
  | expire w =>
    obtain ⟨v,hv,rfl⟩ := MainThreads.step_expire.mp h
    obtain ⟨active,mode,slow,retry,rfl⟩ := hw
    cases w <;> exact ⟨_,MainThreads.step_expire.mpr ⟨v,hv,rfl⟩,active,mode,slow,retry,rfl⟩
  | enter w =>
    obtain ⟨hi,v,hv,rfl⟩ := MainThreads.step_enter.mp h
    obtain ⟨active,mode,slow,retry,rfl⟩ := hw
    cases w <;> exact ⟨_,MainThreads.step_enter.mpr ⟨hi,v,hv,rfl⟩,active,mode,slow,retry,rfl⟩
  | work err =>
    obtain ⟨n,q,hn,rfl⟩ := MainThreads.step_work.mp h
    obtain ⟨n',hn',hw'⟩ := workNext_same hw hn
    exact ⟨n',MainThreads.step_work.mpr ⟨n',q,hn',rfl⟩,hw'⟩
  | connect err =>
    obtain ⟨hh,hl,rfl⟩ := MainThreads.step_connect.mp h
    refine ⟨m,MainThreads.step_connect.mpr ⟨hh,hl,?_⟩,?_⟩ <;> split <;> first | rfl | exact hw
  | security level err =>
    obtain ⟨hh,hu,rfl⟩ := MainThreads.step_security.mp h
    exact ⟨m,MainThreads.step_security.mpr ⟨hh,hu,rfl⟩,hw⟩
  | disconnect =>
    obtain ⟨hh,hu,rfl⟩ := MainThreads.step_disconnect.mp h
    exact ⟨m,MainThreads.step_disconnect.mpr ⟨hh,hu,rfl⟩,hw⟩
  | host =>
    obtain ⟨n,q,hn,rfl⟩ := MainThreads.step_host.mp h
    obtain ⟨n',hn',hw'⟩ := hostNext_same hw hn
    exact ⟨n',MainThreads.step_host.mpr ⟨n',q,hn',rfl⟩,hw'⟩
  | recycle =>
    obtain ⟨hh,hl,hu,hr,hx,rfl⟩ := MainThreads.step_recycle.mp h
    refine ⟨m,MainThreads.step_recycle.mpr ⟨hh,hl,hu,?_,hx,rfl⟩,hw⟩
    obtain ⟨_,_,_,_,rfl⟩ := hw
    exact hr
  | receive data =>
    obtain ⟨l,hl,hr,hh,rfl⟩ := MainThreads.step_receive.mp h
    exact ⟨m,MainThreads.step_receive.mpr ⟨l,hl,hr,hh,rfl⟩,hw⟩
  | rx err =>
    obtain ⟨n,q,hn,rfl⟩ := MainThreads.step_rx.mp h
    obtain ⟨n',hn',hw'⟩ := rxNext_same hw hn
    exact ⟨n',MainThreads.step_rx.mpr ⟨n',q,hn',rfl⟩,hw'⟩
  | ready data =>
    obtain ⟨hg,hd,rfl⟩ := MainThreads.step_ready.mp h
    exact ⟨m,MainThreads.step_ready.mpr ⟨hg,hd,rfl⟩,hw⟩
  | give =>
    obtain ⟨hg,rfl⟩ := MainThreads.step_give.mp h
    obtain ⟨active,mode,slow,retry,rfl⟩ := hw
    exact ⟨_,MainThreads.step_give.mpr ⟨hg,rfl⟩,active,mode,slow,retry,rfl⟩
  | writer k err =>
    obtain ⟨n,q,pc,hn,rfl⟩ := MainThreads.step_writer.mp h
    obtain ⟨n',hn',hw'⟩ := writerNext_same hw hn
    exact ⟨n',MainThreads.step_writer.mpr ⟨n',q,pc,hn',rfl⟩,hw'⟩

theorem fw_same {port : Bool} {f g : Firmware.State} {b : Firmware.Label}
    (hw : AdvWrite f.main.main m) (h : Firmware.step port f b = some g) :
    ∃ n, Firmware.step port (setMain f m) b = some (setMain g n) ∧ AdvWrite g.main.main n := by
  cases b with
  | wait ms =>
    obtain ⟨x,u,hx,hu,rfl⟩ := Firmware.step_wait.mp h
    obtain ⟨n,hn,hw'⟩ := main_same hw hx
    exact ⟨n,Firmware.step_wait.mpr ⟨_,u,hn,hu,rfl⟩,hw'⟩
  | main c =>
    obtain ⟨ho,x,hx,rfl⟩ := Firmware.step_main.mp h
    obtain ⟨n,hn,hw'⟩ := main_same hw hx
    refine ⟨n,Firmware.step_main.mpr ⟨?_,_,hn,rfl⟩,hw'⟩
    cases c <;> exact ho
  | uart c =>
    obtain ⟨ho,u,hu,rfl⟩ := Firmware.step_uart.mp h
    exact ⟨m,Firmware.step_uart.mpr ⟨ho,u,hu,rfl⟩,hw⟩
  | call err =>
    obtain ⟨l,u,hl,hu,ht⟩ := Firmware.step_call.mp h
    rcases Firmware.afterCall_some ht with ⟨hi,rfl⟩ | ⟨hi,x,hx,rfl⟩
    · refine ⟨m,Firmware.step_call.mpr ⟨l,u,hl,hu,?_⟩,hw⟩
      rw [Firmware.afterCall, if_neg hi]
      rfl
    · obtain ⟨n,hn,hw'⟩ := main_same hw hx
      refine ⟨n,Firmware.step_call.mpr ⟨l,u,hl,hu,?_⟩,hw'⟩
      rw [Firmware.afterCall, if_pos hi]
      exact Option.map_eq_some_iff.mpr ⟨_,hn,rfl⟩

theorem run_same {port : Bool} {f g : Firmware.State} {bs : List Firmware.Label}
    (hw : AdvWrite f.main.main m) (h : run (Firmware.step port) bs f = some g) :
    ∃ n, run (Firmware.step port) bs (setMain f m) = some (setMain g n) ∧
      AdvWrite g.main.main n := by
  induction bs generalizing f m with
  | nil =>
    obtain rfl : f = g := Option.some.inj h
    exact ⟨m,rfl,hw⟩
  | cons b bs ih =>
    obtain ⟨k,hk,hg⟩ := Option.bind_eq_some_iff.mp h
    obtain ⟨n,hn,hw'⟩ := fw_same hw hk
    obtain ⟨n',hn',hw''⟩ := ih hw' hg
    exact ⟨n',by simp [run, hn, hn'],hw''⟩

theorem advWrite_trans {k : Main} (h : AdvWrite m n) (h' : AdvWrite n k) : AdvWrite m k := by
  obtain ⟨_,_,_,_,rfl⟩ := h
  obtain ⟨active,mode,slow,retry,rfl⟩ := h'
  exact ⟨active,mode,slow,retry,rfl⟩

theorem advWrite_symm (h : AdvWrite m n) : AdvWrite n m := by
  obtain ⟨_,_,_,_,rfl⟩ := h
  exact ⟨m.advActive,m.lockedMode,m.advSlowWork,m.advRetryWork,rfl⟩

def Carried (s : Device.State) (f : Firmware.State) : Prop :=
  ∃ m, AdvWrite s.fw.main.main m ∧ f = setMain s.fw m

/-- Seen from the data paths, each step of the device is some of theirs. -/
theorem data_part (port : Bool) :
    Simulates (Device.step port) (Firmware.step port) (fun _ _ => True) fwLabels Carried := by
  rintro s a t f ⟨m,hw,rfl⟩ - h
  obtain ⟨g,k,hg,hk,ht⟩ := fw_part h
  obtain ⟨n,hn,hw'⟩ := run_same hw hg
  refine ⟨_,hn,n,?_,?_⟩ <;> rw [ht]
  · exact advWrite_trans (advWrite_symm hk) hw'
  · rfl

theorem run_data {port : Bool} {s : Device.State} {bonds : List ℕ} {rate : UInt32}
    {es : List Device.Label} (h : run (Device.step port) es (Device.init bonds rate) = some s) :
    ∃ f, run (Firmware.step port)
        (trace (Device.step port) fwLabels es (Device.init bonds rate)) (Firmware.init false rate) =
          some f ∧ Carried s f :=
  (data_part port).run ⟨_,advWrite_refl _,rfl⟩ h (allSteps_true _ _)

end Data

/-- The statics of the advertising threads, the rest from elsewhere. -/
def graft (m g : Main) : Main :=
  { g with
    now := m.now
    currentConn := m.currentConn
    advActive := m.advActive
    lockedMode := m.lockedMode
    advSlowWork := m.advSlowWork
    advRetryWork := m.advRetryWork }

def graftRadio (r : Radio) (g : Main) : Radio := { r with main := graft r.main g }

/-- The callbacks of the radio's view arm no relay grace. -/
def skipArm : HostTask → HostTask
  | .callback .discArm => .callback .discCancelWatchdog
  | task => task

def graftState (v : Advertiser.State) (g : Main) : Advertiser.State :=
  ⟨graftRadio v.radio g,v.threads,skipArm v.host⟩

theorem btLeAdvStart_graft (slow : Bool) (err : ℤ) (r : Radio) (g : Main) :
    btLeAdvStart slow err (graftRadio r g) =
      (btLeAdvStart slow err r).map (fun r => graftRadio r g) := by
  unfold btLeAdvStart
  split
  · by_cases hr : r.obj = .free <;> simp [graftRadio, graft, hr]
  · rfl

theorem startNext_graft (r : Radio) (err : ℤ) (pc : StartPc) (g : Main) :
    startNext (graftRadio r g) err pc =
      (startNext r err pc).map (fun c => (graftRadio c.1 g,c.2)) := by
  cases pc with
  | start =>
    simp only [startNext, btLeAdvStart_graft, Option.map_map]
    rfl
  | _ => rfl

theorem slowNext_graft (r : Radio) (err : ℤ) (sync : Bool) (pc : SlowPc) (g : Main) :
    slowNext (graftRadio r g) err sync pc =
      (slowNext r err sync pc).map (fun c => (graftRadio c.1 g,c.2)) := by
  cases pc with
  | stop =>
    by_cases he : err = 0 <;> by_cases hl : r.obj.live = true <;> cases sync <;>
      simp [slowNext, graftRadio, he, hl]
  | nested pc =>
    simp only [slowNext, startNext_graft, Option.map_map]
    rfl
  | start =>
    simp only [slowNext, btLeAdvStart_graft, Option.map_map]
    rfl
  | store err =>
    simp only [slowNext]
    split <;> rfl
  | _ => rfl

theorem refreshNext_graft (r : Radio) (err : ℤ) (pc : RefreshPc) (g : Main) :
    refreshNext (graftRadio r g) err pc =
      (graftRadio (refreshNext r err pc).1 g,(refreshNext r err pc).2) := by
  cases pc with
  | add rest bonds => cases rest <;> rfl
  | _ => rfl

theorem pcNext_graft (r : Radio) (err : ℤ) (sync : Bool) (pc : Pc) (g : Main) :
    pcNext (graftRadio r g) err sync pc =
      (pcNext r err sync pc).map (fun c => (graftRadio c.1 g,c.2)) := by
  cases pc with
  | refresh pc =>
    simp only [pcNext, refreshNext_graft]
    rfl
  | start pc =>
    simp only [pcNext, startNext_graft, Option.map_map]
    rfl
  | slow pc =>
    simp only [pcNext, slowNext_graft, Option.map_map]
    rfl

theorem step_graft {v w : Advertiser.State} {b : Advertiser.Label} (hb : ownsAdv b = true)
    (h : Advertiser.step v b = some w) (g : Main) :
    Advertiser.step (graftState v g) b = some (graftState w g) := by
  cases b with
  | expire i =>
    obtain ⟨x,hx,rfl⟩ := Advertiser.step_expire.mp h
    refine Advertiser.step_expire.mpr ⟨x,?_,?_⟩ <;> cases i <;> first | exact hx | rfl
  | enter i =>
    obtain ⟨hT,x,hx,rfl⟩ := Advertiser.step_enter.mp h
    refine Advertiser.step_enter.mpr ⟨hT,x,?_,?_⟩ <;> cases i <;> first | exact hx | rfl
  | run T err sync =>
    obtain ⟨pc,r,q,hT,hl,hn,rfl⟩ := Advertiser.step_run.mp h
    refine Advertiser.step_run.mpr ⟨pc,graftRadio r g,q,hT,hl,?_,rfl⟩
    show pcNext (graftRadio v.radio g) err sync pc = _
    rw [pcNext_graft, hn]
    rfl
  | recycled =>
    obtain ⟨ho,hT,rfl⟩ := Advertiser.step_recycled.mp h
    exact Advertiser.step_recycled.mpr ⟨ho,hT,rfl⟩
  | _ => simp [ownsAdv] at hb

theorem hostNext_graft {m n g : Main} {p q : HostPc} (hg : g.relayEnabled = false)
    (hp : p ≠ .discArm) (h : hostNext m p = some (n,q)) :
    ∃ g' q', g'.relayEnabled = false ∧ hostNext (graft m g) p = some (graft n g',q') ∧
      HostTask.callback q' = skipArm (.callback q) := by
  cases p with
  | idle => simp [hostNext] at h
  | discArm => contradiction
  | connLock err =>
    obtain ⟨rfl,rfl⟩ := Prod.mk.inj (Option.some.inj h)
    by_cases he : err = 0
    · exact ⟨connectedLock err g,.connCancelSlow,by simp [connectedLock, he, hg],
        by simp [hostNext, connectedLock, he, graft],by simp [he, skipArm]⟩
    · exact ⟨g,.idle,hg,by simp [hostNext, connectedLock, he, graft],by simp [he, skipArm]⟩
  | discLock =>
    obtain ⟨rfl,rfl⟩ := Prod.mk.inj (Option.some.inj h)
    refine ⟨disconnectedLock (graft m g),.discGive,?_,?_,rfl⟩
    · simp only [disconnectedLock]
      split <;> exact hg
    · by_cases hc : m.currentConn = true <;> simp [hostNext, disconnectedLock, graft, hc]
  | secEntry level err =>
    obtain ⟨rfl,rfl⟩ := Prod.mk.inj (Option.some.inj h)
    refine ⟨g,_,hg,rfl,?_⟩
    split <;> rfl
  | discHeld =>
    obtain ⟨rfl,rfl⟩ := Prod.mk.inj (Option.some.inj h)
    refine ⟨g,.discCancelWatchdog,hg,by simp [hostNext, graft, hg],?_⟩
    split <;> rfl
  | connCancelSlow =>
    obtain ⟨rfl,rfl⟩ := Prod.mk.inj (Option.some.inj h)
    exact ⟨g,_,hg,rfl,rfl⟩
  | connArmWatchdog =>
    obtain ⟨rfl,rfl⟩ := Prod.mk.inj (Option.some.inj h)
    exact ⟨armSecurityTimeout (graft m g),_,hg,rfl,rfl⟩
  | secLock =>
    obtain ⟨rfl,rfl⟩ := Prod.mk.inj (Option.some.inj h)
    exact ⟨securedLock g,_,hg,rfl,rfl⟩
  | secCancelWatchdog | discCancelWatchdog =>
    obtain ⟨rfl,rfl⟩ := Prod.mk.inj (Option.some.inj h)
    exact ⟨cancelSecurityTimeout g,_,hg,rfl,rfl⟩
  | secCancelGrace =>
    obtain ⟨rfl,rfl⟩ := Prod.mk.inj (Option.some.inj h)
    exact ⟨cancelRelayGrace g,_,hg,rfl,rfl⟩
  | secGive | discGive =>
    obtain ⟨rfl,rfl⟩ := Prod.mk.inj (Option.some.inj h)
    exact ⟨giveRxDataReady g,_,hg,rfl,rfl⟩

structure SameAdv (m n : Main) : Prop where
  now : n.now = m.now
  conn : n.currentConn = m.currentConn
  active : n.advActive = m.advActive
  mode : n.lockedMode = m.lockedMode
  slow : n.advSlowWork = m.advSlowWork
  retry : n.advRetryWork = m.advRetryWork

theorem SameAdv.graft {m n : Main} (h : SameAdv m n) (g : Main) : graft n g = graft m g := by
  simp only [DeviceParts.graft, h.now, h.conn, h.active, h.mode, h.slow, h.retry]

theorem main_adv {x y : MainThreads.State} {b : MainThreads.Label} (hb : thread b ≠ .stack)
    (hw : ∀ ms, b ≠ .wait ms) (h : MainThreads.step port x b = some y) : SameAdv x.main y.main := by
  cases main_cases h with
  | same hm => rw [hm]; exact ⟨rfl,rfl,rfl,rfl,rfl,rfl⟩
  | @wait ms _ => exact absurd rfl (hw ms)
  | item w v _ hm =>
    rw [hm]
    cases w <;> exact ⟨rfl,rfl,rfl,rfl,rfl,rfl⟩
  | host _ => exact absurd rfl hb
  | work hn =>
    rcases workNext_main hn with hm | hm | hm | hm | hm | hm <;> rw [hm] <;>
      exact ⟨rfl,rfl,rfl,rfl,rfl,rfl⟩
  | rx hn =>
    rcases rxNext_main hn with hm | hm | ⟨enable,hm⟩ <;> rw [hm] <;>
      exact ⟨rfl,rfl,rfl,rfl,rfl,rfl⟩
  | writer hn =>
    rcases writerNext_main hn with hm | ⟨_,hm⟩ | hm | hm <;> rw [hm] <;>
      exact ⟨rfl,rfl,rfl,rfl,rfl,rfl⟩
  | give hm => rw [hm]; exact ⟨rfl,rfl,rfl,rfl,rfl,rfl⟩

theorem fw_adv {f g : Firmware.State} {b : Firmware.Label} (hb : ownsFw b = true)
    (h : Firmware.step port f b = some g) :
    SameAdv f.main.main g.main.main ∧ g.main.host = f.main.host := by
  have hmain {x y : MainThreads.State} {c : MainThreads.Label} (hc : thread c ≠ .stack)
      (hw : ∀ ms, c ≠ .wait ms) (hs : MainThreads.step port x c = some y) :
      SameAdv x.main y.main ∧ y.host = x.host :=
    ⟨main_adv hc hw hs,(stack_frame hs hc).host⟩
  cases b with
  | wait ms => simp [ownsFw] at hb
  | main c =>
    obtain ⟨_,m,hm,rfl⟩ := Firmware.step_main.mp h
    refine hmain ?_ ?_ hm
    · cases c <;> simp [ownsFw, thread] at hb ⊢
    · rintro ms rfl
      simp [ownsFw] at hb
  | uart c =>
    obtain ⟨_,u,_,rfl⟩ := Firmware.step_uart.mp h
    exact ⟨⟨rfl,rfl,rfl,rfl,rfl,rfl⟩,rfl⟩
  | call err =>
    obtain ⟨l,u,_,_,ht⟩ := Firmware.step_call.mp h
    rcases Firmware.afterCall_some ht with ⟨_,rfl⟩ | ⟨_,m,hm,rfl⟩
    · exact ⟨⟨rfl,rfl,rfl,rfl,rfl,rfl⟩,rfl⟩
    · exact hmain (by simp [thread]) (by simp) hm

def Seen (s : Device.State) (v : Advertiser.State) : Prop :=
  (s.refresh.isSome = true → s.fw.main.host = .idle) ∧
    ∃ g, g.relayEnabled = false ∧ v = graftState (advView s) g

theorem init_seen (bonds : List ℕ) (rate : UInt32) :
    Seen (Device.init bonds rate) (Advertiser.init bonds) :=
  ⟨by simp [Device.init],boot false,rfl,rfl⟩

def radioLabels (s : Device.State) : Device.Label → List Advertiser.Label
  | .wait ms => [.wait ms]
  | .fw _ => []
  | .adv a => [a]
  | .attempt _ => [.attempt]
  | .connected err => [.connected err]
  | .security level err => [.security level err]
  | .pairingComplete => [.pairingComplete s.peer]
  | .disconnected => [.disconnected]
  | .host => if s.fw.main.host = .discArm then [] else [.host 0]
  | .refresh err => [.host err]
  | .returned => [.returned]

theorem task_idle (h : task s = .callback .idle) : s.refresh = none ∧ s.fw.main.host = .idle := by
  unfold task at h
  cases hr : s.refresh <;> simp_all

theorem task_callback {pc : HostPc} (h : task s = .callback pc) : s.fw.main.host = pc := by
  unfold task at h
  cases hr : s.refresh <;> simp_all

theorem setAdv_refresh {v : Advertiser.State} (hv : v.host = task s) :
    (setAdv s v).refresh = s.refresh := by
  cases hr : s.refresh <;> simp [setAdv, hv, task, hr]

theorem advView_setAdv {v : Advertiser.State}
    (hv : ∀ pc, v.host = .callback pc → s.fw.main.host = pc) :
    advView (setAdv s v) = v := by
  have ht : task (setAdv s v) = v.host := by
    cases hh : v.host with
    | refresh pc => simp [task, setAdv, hh]
    | callback pc => simp [task, setAdv, setMain, hh, hv pc hh]
  simp only [advView, ht]
  rfl

theorem main_step {f g : Firmware.State} {b : MainThreads.Label}
    (h : Firmware.step port f (.main b) = some g) :
    ∃ m, MainThreads.step port f.main b = some m ∧ g = { f with main := m } := by
  obtain ⟨_,m,hm,rfl⟩ := Firmware.step_main.mp h
  exact ⟨m,hm,rfl⟩

theorem seen_step {g : Main} {b : Advertiser.Label} (hg : g.relayEnabled = false)
    (ht : t.refresh.isSome = true → t.fw.main.host = .idle)
    (h : Advertiser.step (graftState (advView s) g) b = some (graftState (advView t) g)) :
    ∃ v, run Advertiser.step [b] (graftState (advView s) g) = some v ∧ Seen t v :=
  ⟨_,by simp [run, h],ht,g,hg,rfl⟩

theorem host_part {g : Main} (hidle : s.refresh.isSome = true → s.fw.main.host = .idle)
    (hg : g.relayEnabled = false) (h : Device.step port s .host = some t) :
    ∃ v, run Advertiser.step (radioLabels s .host) (graftState (advView s) g) = some v ∧
      Seen t v := by
  obtain ⟨hl,f,hf,rfl⟩ := Device.step_host.mp h
  obtain ⟨m,hm,rfl⟩ := main_step hf
  obtain ⟨n,q,hn,rfl⟩ := MainThreads.step_host.mp hm
  have href : s.refresh = none := by
    by_contra hr
    rw [hidle (Option.isSome_iff_ne_none.mpr hr)] at hn
    simp [hostNext] at hn
  have htask : task s = .callback s.fw.main.host := by simp [task, href]
  -- the radio's callback goes past the arming of the grace, which it does not see
  by_cases ha : s.fw.main.host = .discArm
  · rw [ha] at hn
    obtain ⟨rfl,rfl⟩ := Prod.mk.inj (Option.some.inj hn)
    refine ⟨graftState (advView s) g,by simp [radioLabels, ha, run],by simp [href],g,hg,?_⟩
    simp only [graftState, advView, task, href, ha, skipArm]
    rfl
  · obtain ⟨g',q',hg',hn',hq'⟩ := hostNext_graft hg ha hn
    have hskip : skipArm (task s) = .callback s.fw.main.host := by
      rw [htask]
      cases hh : s.fw.main.host <;> simp_all [skipArm]
    refine ⟨⟨graftRadio { (advView s).radio with main := n } g',s.threads,.callback q'⟩,?_,
      by simp [href],g',hg',?_⟩
    · simp only [radioLabels, if_neg ha, run, Option.bind_eq_some_iff]
      refine ⟨_,Advertiser.step_host.mpr ⟨?_,_,_,?_,rfl⟩,rfl⟩
      · show hostLocks (skipArm (task s)) = true → _
        rw [hskip, ← htask]
        exact hl
      · show hostStep (graftRadio (advView s).radio g) 0 (skipArm (task s)) = _
        rw [hskip]
        simp only [hostStep, graftRadio, advView, hn', Option.map_some]
    · simp only [graftState, advView, task, href, hq']

/-- Seen from the radio, each step of the device is one of the advertising threads,
or none. -/
theorem radio_part (port : Bool) :
    Simulates (Device.step port) Advertiser.step (fun _ _ => True) radioLabels Seen := by
  rintro s a t v ⟨hidle,g,hg,rfl⟩ - h
  have hidle' (hh : task s = .callback .idle) :
      (graftState (advView s) g).host = .callback .idle := by
    simp only [graftState, advView, hh]
    rfl
  cases a with
  | wait ms =>
    obtain ⟨f,hf,rfl⟩ := Device.step_wait.mp h
    obtain ⟨m,u,hm,_,rfl⟩ := Firmware.step_wait.mp hf
    obtain rfl := MainThreads.step_wait.mp hm
    exact ⟨_,rfl,hidle,g,hg,rfl⟩
  | fw b =>
    obtain ⟨ho,_,_,f,hf,rfl⟩ := step_fw.mp h
    obtain ⟨hadv,hhost⟩ := fw_adv ho hf
    refine ⟨_,rfl,?_,g,hg,?_⟩
    · rw [← hhost] at hidle
      exact hidle
    · simp only [graftState, graftRadio, advView, task, hadv.graft, hhost]
  | adv b =>
    obtain ⟨ho,_,w,hw,rfl⟩ := step_adv.mp h
    have hhost : w.host = task s := (adv_writes ho hw).2
    refine ⟨graftState w g,by simp [radioLabels, run, step_graft ho hw g],?_,g,hg,?_⟩
    · rw [setAdv_refresh hhost]
      exact hidle
    · rw [advView_setAdv (fun pc hp => task_callback (hhost ▸ hp))]
  | attempt peer =>
    obtain ⟨slow,filtered,ho,_,rfl⟩ := Device.step_attempt.mp h
    refine seen_step hg hidle (Advertiser.step_attempt.mpr ⟨?_,rfl⟩)
    show s.obj.live = true
    rw [ho]
    rfl
  | connected err =>
    obtain ⟨hr,ho,f,hf,rfl⟩ := Device.step_connected.mp h
    obtain ⟨m,hm,rfl⟩ := main_step hf
    obtain ⟨hh,_,rfl⟩ := MainThreads.step_connect.mp hm
    refine seen_step hg (by simp [hr])
      (Advertiser.step_connected.mpr ⟨hidle' (by simp [task, hr, hh]),ho,?_⟩)
    by_cases he : err = 0 <;> simp [graftState, graftRadio, advView, task, hr, he, skipArm]
  | security level err =>
    obtain ⟨hr,ho,f,hf,rfl⟩ := Device.step_security.mp h
    obtain ⟨m,hm,rfl⟩ := main_step hf
    obtain ⟨hh,_,rfl⟩ := MainThreads.step_security.mp hm
    refine seen_step hg (by simp [hr])
      (Advertiser.step_security.mpr ⟨hidle' (by simp [task, hr, hh]),ho,?_⟩)
    simp [graftState, graftRadio, advView, task, hr, skipArm]
  | pairingComplete =>
    obtain ⟨hh,ho,rfl⟩ := Device.step_pairingComplete.mp h
    exact seen_step hg (fun _ => (task_idle hh).2)
      (Advertiser.step_pairingComplete.mpr ⟨hidle' hh,ho,rfl⟩)
  | disconnected =>
    obtain ⟨hr,ho,f,hf,rfl⟩ := Device.step_disconnected.mp h
    obtain ⟨m,hm,rfl⟩ := main_step hf
    obtain ⟨hh,_,rfl⟩ := MainThreads.step_disconnect.mp hm
    refine seen_step hg (by simp [hr])
      (Advertiser.step_disconnected.mpr ⟨hidle' (by simp [task, hr, hh]),ho,?_⟩)
    simp [graftState, graftRadio, advView, task, hr, skipArm]
  | host => exact host_part hidle hg h
  | refresh err =>
    obtain ⟨pc,hpc,rfl⟩ := step_refresh_some h
    have hh : (graftState (advView s) g).host = .refresh pc := by
      simp [graftState, advView, task, hpc, skipArm]
    have hhost : s.fw.main.host = .idle := hidle (by simp [hpc])
    refine seen_step hg (fun _ => hhost)
      (Advertiser.step_host.mpr ⟨by simp [hh, hostLocks],_,_,?_,rfl⟩)
    rw [hh, advView_setAdv]
    · show some _ = some _
      dsimp only [graftState]
      rw [refreshNext_graft]
      cases (refreshNext (advView s).radio err pc).2 <;> rfl
    · intro p hp
      cases hq : (refreshNext (advView s).radio err pc).2 <;> simp_all
  | returned =>
    obtain ⟨hh,ht⟩ := Device.step_returned.mp h
    rcases ht with ⟨ho,rfl⟩ | ⟨ho,f,hf,rfl⟩
    · exact seen_step hg hidle (Advertiser.step_returned.mpr ⟨hidle' hh,Or.inl ho,rfl⟩)
    · obtain ⟨m,hm,rfl⟩ := main_step hf
      obtain ⟨_,_,_,_,_,rfl⟩ := MainThreads.step_recycle.mp hm
      exact seen_step hg hidle (Advertiser.step_returned.mpr ⟨hidle' hh,Or.inr ho,rfl⟩)

/-- Each run of the device is a run of the data paths and a run of the radio, at whose
ends both see what the device is in. -/
theorem device_parts (port : Bool) (bonds : List ℕ) (rate : UInt32) (es : List Device.Label)
    (s : Device.State) (h : run (Device.step port) es (Device.init bonds rate) = some s) :
    (∃ f, run (Firmware.step port)
        (trace (Device.step port) fwLabels es (Device.init bonds rate)) (Firmware.init false rate) =
          some f ∧ Carried s f) ∧
      ∃ v, run Advertiser.step
        (trace (Device.step port) radioLabels es (Device.init bonds rate)) (Advertiser.init bonds) =
          some v ∧ Seen s v :=
  ⟨run_data h,(radio_part port).run (init_seen bonds rate) h (allSteps_true _ _)⟩

def connecting : List Device.Label :=
  List.replicate 7 (.adv (.run .boot 0 false))++[.attempt 7, .connected 0, .host]

def connectedTo : Device.State :=
  { Device.init [] 115200 with
    fw :=
      ⟨{ MainThreads.init false with
          main :=
            { boot false with
              currentConn := true
              connRefs := 1
              advSlowWork := ⟨some advFastDuration,false,.returned⟩ }
          host := .connCancelSlow
          link := some 0
          up := true
          links := 1 },UartBridge.init 115200⟩
    obj := .link
    threads := ⟨none,none,none⟩
    peer := 7 }

theorem device_parts_connecting :
    (∃ f, run (Firmware.step true)
        (trace (Device.step true) fwLabels connecting (Device.init [] 115200))
          (Firmware.init false 115200) = some f ∧ Carried connectedTo f) ∧
      ∃ v, run Advertiser.step
        (trace (Device.step true) radioLabels connecting (Device.init [] 115200))
          (Advertiser.init []) = some v ∧ Seen connectedTo v :=
  device_parts true [] 115200 connecting connectedTo (by decide)

end NrfProxy.DeviceParts
