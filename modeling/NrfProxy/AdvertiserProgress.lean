import NrfProxy.AdvertiserInvariant

/-!
# The advertising threads come to rest

Each of them takes a bounded number of steps, and one which cannot go on waits
for `conn_mutex`, whose holder can.
-/

set_option autoImplicit false

namespace NrfProxy.AdvertiserProgress
open NrfProxy.Runs NrfProxy.Delayable NrfProxy.MainState NrfProxy.Advertiser

def startLeft : StartPc → ℕ
  | .retry | .slow => 1
  | .store _ => 2
  | .start => 3
  | .guard => 4

def slowLeft : SlowPc → ℕ
  | .leave => 1
  | .delay | .retry => 2
  | .stopFailed | .check => 3
  | .store _ => 4
  | .start => 5
  | .nested pc => 5+startLeft pc
  | .stop => 10
  | .guard => 11

def refreshLeft (bonds : List ℕ) : RefreshPc → ℕ
  | .setMode _ => 1
  | .add rest _ => rest.length+2
  | .clear _ => bonds.length+3
  | .count => bonds.length+4

def pcLeft (bonds : List ℕ) : Pc → ℕ
  | .start pc => startLeft pc
  | .slow pc => slowLeft pc
  | .refresh pc => refreshLeft bonds pc+4

def threadsLeft (bonds : List ℕ) (threads : Threads) : ℕ :=
  (threads .boot).elim 0 (pcLeft bonds)+(threads .work).elim 0 (pcLeft bonds)+
    (threads .recycled).elim 0 (pcLeft bonds)

theorem startNext_left {r r' : Radio} {err : ℤ} {pc : StartPc} {q : Option StartPc}
    (h : startNext r err pc = some (r',q)) : q.elim 0 startLeft+1 ≤ startLeft pc := by
  cases pc with
  | guard | store =>
    obtain ⟨_,rfl⟩ := Prod.mk.inj (Option.some.inj h)
    split <;> simp [startLeft]
  | start =>
    simp only [startNext, Option.map_eq_some_iff, Prod.mk.injEq] at h
    obtain ⟨d,_,_,rfl⟩ := h
    simp [startLeft]
  | retry | slow =>
    obtain ⟨_,rfl⟩ := Prod.mk.inj (Option.some.inj h)
    simp [startLeft]

theorem slowNext_left {r r' : Radio} {err : ℤ} {sync : Bool} {pc : SlowPc} {q : Option SlowPc}
    (h : slowNext r err sync pc = some (r',q)) : q.elim 0 slowLeft+1 ≤ slowLeft pc := by
  cases slow_move h with
  | nested hd =>
    have hn := startNext_left hd
    rename_i p
    cases p <;> simp only [Option.elim, slowLeft] at * <;> omega
  | _ => simp [slowLeft, startLeft]

theorem refreshNext_left (r : Radio) (err : ℤ) (pc : RefreshPc) :
    (refreshNext r err pc).2.elim 0 (refreshLeft r.bonds)+1 ≤ refreshLeft r.bonds pc := by
  cases pc with
  | add rest bonds => cases rest <;> simp [refreshNext, refreshLeft]
  | clear bonds =>
    simp only [refreshNext]
    split <;> simp [refreshLeft]
  | _ => simp [refreshNext, refreshLeft]

theorem pcNext_left {r r' : Radio} {err : ℤ} {sync : Bool} {pc : Pc} {q : Option Pc}
    (h : pcNext r err sync pc = some (r',q)) :
    q.elim 0 (pcLeft r.bonds)+1 ≤ pcLeft r.bonds pc := by
  cases pc with
  | refresh p =>
    obtain ⟨_,rfl⟩ := Prod.mk.inj (Option.some.inj h)
    have hn := refreshNext_left r err p
    cases hq : (refreshNext r err p).2 <;> simp_all [pcLeft, startLeft]
  | start p =>
    simp only [pcNext, Option.map_eq_some_iff, Prod.mk.injEq] at h
    obtain ⟨⟨d,p'⟩,hd,_,rfl⟩ := h
    have hn := startNext_left hd
    cases p' <;> simpa [pcLeft] using hn
  | slow p =>
    simp only [pcNext, Option.map_eq_some_iff, Prod.mk.injEq] at h
    obtain ⟨⟨d,p'⟩,hd,_,rfl⟩ := h
    have hn := slowNext_left hd
    cases p' <;> simpa [pcLeft] using hn

theorem threadsLeft_set (bonds : List ℕ) (threads : Threads) (T : Advertiser.Thread)
    (q : Option Pc) :
    threadsLeft bonds (setThread threads T q)+(threads T).elim 0 (pcLeft bonds) =
      threadsLeft bonds threads+q.elim 0 (pcLeft bonds) := by
  cases T <;> simp only [threadsLeft, setThread, Threads.get] <;> omega

theorem startNext_total (r : Radio) (pc : StartPc) : ∃ c q, startNext r 1 pc = some (c,q) := by
  cases pc <;> exact ⟨_,_,rfl⟩

theorem slowNext_total (r : Radio) (sync : Bool) (pc : SlowPc) :
    ∃ c q, slowNext r 1 sync pc = some (c,q) := by
  cases pc with
  | nested pc =>
    obtain ⟨c,q,hc⟩ := startNext_total r pc
    exact ⟨c,_,by rw [slowNext, hc, Option.map_some]⟩
  | store err =>
    by_cases he : err = 0
    · exact ⟨_,_,by rw [slowNext, if_pos he]⟩
    · exact ⟨_,_,by rw [slowNext, if_neg he]⟩
  | _ => exact ⟨_,_,rfl⟩

theorem inside_unlocks {pc : Pc} (h : inside pc = true) : locks pc = false := by
  cases pc with
  | refresh => rfl
  | start pc => cases pc <;> simp_all [inside, Advertiser.locks]
  | slow pc => cases pc <;> simp_all [inside, Advertiser.locks]

theorem pcNext_possible (r : Radio) (sync : Bool) (pc : Pc) :
    ∃ err c q, pcNext r err sync pc = some (c,q) := by
  cases pc with
  | refresh pc => exact ⟨0,_,_,rfl⟩
  | start pc =>
    obtain ⟨c,q,hc⟩ := startNext_total r pc
    exact ⟨1,c,_,by rw [pcNext, hc, Option.map_some]⟩
  | slow pc =>
    obtain ⟨c,q,hc⟩ := slowNext_total r sync pc
    exact ⟨1,c,_,by rw [pcNext, hc, Option.map_some]⟩

theorem radio_bonds {r r' : Radio} (h : RadioMove r r') : r'.bonds = r.bonds := by
  cases h with
  | start h =>
    unfold btLeAdvStart at h
    split_ifs at h <;> obtain rfl := Option.some.inj h <;> rfl
  | _ => rfl

theorem pcNext_bonds {r r' : Radio} {err : ℤ} {sync : Bool} {pc : Pc} {q : Option Pc}
    (h : pcNext r err sync pc = some (r',q)) : r'.bonds = r.bonds := by
  cases pc with
  | refresh pc =>
    obtain ⟨rfl,_⟩ := Prod.mk.inj (Option.some.inj h)
    cases pc with
    | add rest bonds => cases rest <;> rfl
    | _ => rfl
  | start pc =>
    simp only [pcNext, Option.map_eq_some_iff, Prod.mk.injEq] at h
    obtain ⟨⟨d,p⟩,hd,rfl,_⟩ := h
    exact radio_bonds (startNext_radio hd)
  | slow pc =>
    simp only [pcNext, Option.map_eq_some_iff, Prod.mk.injEq] at h
    obtain ⟨⟨d,p⟩,hd,rfl,_⟩ := h
    exact radio_bonds (slowNext_radio hd)

theorem thread_free {threads : Threads} (h : ∃ T, threads T ≠ none) :
    ∃ T pc, threads T = some pc ∧ (locks pc = true → locked threads = false) := by
  by_cases hl : ∃ T pc, threads T = some pc ∧ inside pc = true
  · obtain ⟨T,pc,hT,hi⟩ := hl
    exact ⟨T,pc,hT,fun hp => by simp [inside_unlocks hi] at hp⟩
  · obtain ⟨T,hT⟩ := h
    obtain ⟨pc,hpc⟩ := Option.ne_none_iff_exists'.mp hT
    refine ⟨T,pc,hpc,fun _ => locked_false.mpr (fun T' p hT' => ?_)⟩
    by_contra hi
    exact hl ⟨T',p,hT',by simpa using hi⟩

theorem threads_rest {P : State → Prop}
    (hstep : ∀ s T err t, P s → step s (.run T err false) = some t → P t) {s : State} (hs : P s) :
    ∃ as t, (∀ a ∈ as, ∃ T err, a = .run T err false) ∧ run step as s = some t ∧ P t ∧
      ∀ T, t.threads T = none := by
  refine exists_rest (fun s => threadsLeft s.radio.bonds s.threads) ?_ hs
  intro s hs hr
  obtain ⟨T,pc,hT,hl⟩ := thread_free (not_forall.mp hr)
  obtain ⟨err,r,q,hn⟩ := pcNext_possible s.radio false pc
  have ht := step_run.mpr ⟨pc,r,q,hT,hl,hn,rfl⟩
  refine ⟨_,_,⟨T,err,rfl⟩,ht,hstep s T err _ hs ht,?_⟩
  have hset := threadsLeft_set s.radio.bonds s.threads T q
  have hlt := pcNext_left hn
  rw [hT] at hset
  simp only [pcNext_bonds hn, Option.elim_some] at hset ⊢
  omega

end NrfProxy.AdvertiserProgress
