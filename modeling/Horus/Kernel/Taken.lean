import Horus.Kernel.History

/-
  What a complete revocation took out does not come back.

  A serial is gone when no slot holds it or anything that was
  made from it. A new capability has a new serial, and it is
  made from one that some slot holds, so this stays true.
-/

namespace Horus

open Function
open Relation

/- Serial `x` is `c`, or was made from it in some steps. -/
def MadeFrom (log : List Derivation) (x c : Nat) : Prop := x = c ∨ TransGen (Hist log) x c

structure Gone (s : CapState) (c : Nat) : Prop where
  none : ∀ b, s.Held b → ¬ MadeFrom s.log (s.mem b).serial c
  old : c ≤ max s.nextSerial minDerivedSerial

section Gone

variable {s s' : CapState} {c : Nat}

theorem Gone.ne_fresh (hGone : Gone s c) (hFresh : s.freshSerial ≠ 0) : s.freshSerial ≠ c := by
  have hOld := hGone.old
  rcases freshSerial_cases s with hZero | hNew
  · exact absurd hZero hFresh
  · omega

/- A record that was made from no other. -/
theorem Gone.writeFresh {a : Addr} {x : Capability} (hGone : Gone s c)
    (hTracked : Tracked s) (hC : c ≠ 0) (hMem : s'.mem = update s.mem a x)
    (hVisible : s'.Visible = s.Visible)
    (hNext : s.nextSerial ≤ s'.nextSerial) (hLog : Hist s'.log = Hist s.log)
    (hSerial : x.serial = s.freshSerial) : Gone s' c where
  none := by
    intro b hB
    unfold MadeFrom
    rw [hLog]
    rcases eq_or_ne b a with rfl | hEq
    · rw [hMem, update_self, hSerial]
      rintro (hSame | hPath)
      · by_cases hFresh : s.freshSerial = 0
        · exact hC (hSame.symm.trans hFresh)
        · exact hGone.ne_fresh hFresh hSame
      · rcases TransGen.head'_iff.mp hPath with ⟨k, hStep, _⟩
        exact (hTracked.not_hist_fresh k).2 hStep
    · rcases held_of_update hMem hVisible hEq with ⟨hHeld, hSame⟩
      rw [hSame]
      exact hGone.none b (hHeld.mp hB)
  old := by
    have hOld := hGone.old
    omega

/- A record that was made from the one in `e`. -/
theorem Gone.writeDerived {a e : Addr} {x : Capability} (hGone : Gone s c)
    (hTracked : Tracked s) (hSound : Sound s)
    (hMem : s'.mem = update s.mem a x) (hVisible : s'.Visible = s.Visible)
    (hNext : s.nextSerial ≤ s'.nextSerial)
    (hLog : ∀ u v, Hist s'.log u v → Hist s.log u v ∨ u = x.serial ∧ v = (s.mem e).serial)
    (hSerial : x.serial = s.freshSerial) (hFresh : s.freshSerial ≠ 0)
    (hE : s.Held e) : Gone s' c where
  none := by
    intro b hB
    have hOld := (hSound.lt_fresh e hFresh).1
    have hSource := hGone.none e hE
    have hPaths : ∀ u, TransGen (Hist s'.log) u c → (u ≠ x.serial ∧ TransGen (Hist s.log) u c) ∨
          (u = x.serial ∧ (c = (s.mem e).serial ∨ TransGen (Hist s.log) (s.mem e).serial c)) := by
      intro u hPath
      refine Lib.transGen_addSource hLog ?_ (by omega) hPath
      rw [hSerial]
      exact hTracked.not_hist_fresh
    rcases eq_or_ne b a with rfl | hEq
    · rw [hMem, update_self]
      rintro (hSame | hPath)
      · exact hGone.ne_fresh hFresh (hSerial.symm.trans hSame)
      rcases hPaths _ hPath with ⟨hNe, _⟩ | ⟨_, hEnd | hRest⟩
      · exact hNe rfl
      · exact hSource (.inl hEnd.symm)
      · exact hSource (.inr hRest)
    · rcases held_of_update hMem hVisible hEq with ⟨hHeld, hSame⟩
      rw [hSame]
      have hNone := hGone.none b (hHeld.mp hB)
      rintro (hIs | hPath)
      · exact hNone (.inl hIs)
      rcases hPaths _ hPath with ⟨_, hThen⟩ | ⟨_, hEnd | hRest⟩
      · exact hNone (.inr hThen)
      · exact hSource (.inl hEnd.symm)
      · exact hSource (.inr hRest)
  old := by
    have hOld := hGone.old
    omega

end Gone

----
-- Every Action
----

section Actions

variable {s : CapState} {c : Nat} (hTables : Tables s)

include hTables

theorem Gone.act (hGone : Gone s c) (hSound : Sound s)
    (hTracked : Tracked s) (hC : c ≠ 0) (act : Act) (hOk : act.Ok s) : Gone (act.apply s) c := by
  by_cases hWrites : act.writes = true
  · cases act with
    | install _ _ _ _ src =>
      rcases hOk with ⟨_, hSerial, hFresh, _, hSource⟩
      cases src with
      | none =>
        exact hGone.writeFresh hTracked hC rfl (visible_congr rfl rfl) (burn_counter s)
          (hist_cons_none _ _ _) hSerial
      | some =>
      rcases hSource.owner with ⟨q, hOwns⟩
      exact hGone.writeDerived hTracked hSound rfl (visible_congr rfl rfl) (burn_counter s)
        (fun u v hHist => hist_cons_some hHist) hSerial
        hFresh
        ⟨hTables.visible_of_owns hOwns, hSource.used⟩
    | place =>
      exact hGone.writeFresh hTracked hC rfl (visible_congr rfl rfl) (burn_counter s)
        (hist_cons_none _ _ _) hOk.2.1
    | _ => cases hWrites
  · rw [Bool.not_eq_true] at hWrites
    constructor
    · intro b hB
      rcases hSound.act_held hTables act hOk hWrites hB with ⟨hHeld, hSerial⟩
      rw [act_log s hWrites, hSerial]
      exact hGone.none b hHeld
    · have hOld := hGone.old
      have hNext := act_counter s act
      omega

/- The sweep of a capability with a serial of its own. -/
theorem Tracked.gone_of_sweep (hTracked : Tracked s) (hSound : Sound s)
    {cur : Nat} {a : Addr} (hOk : (Act.sweep cur a).Ok s)
    (hOwn : minDerivedSerial < (s.mem a).serial) :
    Gone ((Act.sweep cur a).apply s) (s.mem a).serial where
  none := by
    intro b hB
    rintro (hSame | hPath)
    · have hStays : ¬ Emptied s.mem s.Visible a b := by
        intro hIn
        apply hB.2
        rw [(hSound.sweep_mem hOk b).1 hIn]
        rfl
      rw [(hSound.sweep_mem hOk b).2 hStays] at hSame
      have hEq : a = b := hSound.unique a b hOwn hSame.symm
      exact hStays (.inl hEq.symm)
    · exact hTracked.sweep_complete hSound hTables hOk hB hPath
  old := hSound.bound a

end Actions

theorem RunsWhile.regionsFit {cfg : BootConfig} {C : Sys → Op → Prop}
    {s : Sys} (hRun : RunsWhile C (boot cfg) s) : RegionsFit s.obj :=
  Lib.Run.invariant (fun t => RegionsFit t.obj)
    (fun _ op hFit _ => hFit.exec op) hRun (regionsFit_boot cfg)

theorem Gone.exec {cfg : BootConfig} {s : Sys} (hRun : RunsWhile Undisturbed (boot cfg) s) {op : Op}
    (hEnabled : enabled s.cap op = true) (hUndisturbed : Undisturbed s op)
    {c : Nat} (hC : c ≠ 0) (hGone : Gone s.cap c) : Gone (Horus.exec s op).2.cap c := by
  rcases hRun.tracked with ⟨hTables, hSound, hTracked⟩
  have hStep : RunsWhile Undisturbed s (Horus.exec s op).2 :=
    Lib.Run.single op ⟨hEnabled, hUndisturbed⟩
  exact (RunsWhile.invariant (fun t => Sound t ∧ Tracked t ∧ Gone t c) benign_keeps
    (fun t o hT hI hO => permits_keeps hT hI.1 o hO)
    (fun t act hT hI hOk hKeeps =>
      ⟨hI.1.act hT act hOk, hI.2.1.act hI.1 hT act hOk hKeeps,
        hI.2.2.act hT hI.1 hI.2.1 hC act hOk⟩)
    hStep hTables hRun.regionsFit
    ⟨hSound, hTracked, hGone⟩).2.2.2.2

end Horus
