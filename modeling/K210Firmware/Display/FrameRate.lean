import K210Firmware.Library.Memory
import K210Firmware.Library.Settling
import K210Firmware.Library.Transition
import Mathlib.Algebra.Group.Nat.Defs

/-!
# The frame-rate loops

The loops of `tft_thread` and `lvgl_handle_thread` work, sleep for `t` ticks, and then move `t` by
one towards thirty frames a second. The decrement of an unsigned zero wraps round, which the upper
limit catches. The tick counter has 32 bits; as long as a frame takes less than its range, the loop
is `pace` on natural numbers, which settles at a frame of 33 or 34 ticks, or at the shortest frame
that the work allows.
-/

namespace K210Firmware.Display.FrameRate

open Memory Transition Settling

def rtTickPerSecond : UInt32 := 1000

/-- The delay `t` of a loop, and the tick at the start of its next frame. -/
structure FrameLoop where
  t : UInt32
  start : UInt32
  deriving DecidableEq, Repr

def tftThread (start : UInt32) : FrameLoop := ⟨10, start⟩

def lvglHandleThread (start : UInt32) : FrameLoop := ⟨rtTickPerSecond / 60, start⟩

/-- `rt_thread_mdelay(t)` and `rt_thread_delay(t)` wait for the next tick at least. -/
def delayTicks (t : UInt32) : UInt32 := if t = 0 then 1 else t

/-- The end of the loop body. -/
def adjust (t fps : UInt32) : UInt32 :=
  let t := if fps > 3000 then t + 1 else t - 1
  if t > rtTickPerSecond then 0 else t

/-- One frame with `work` ticks of work. -/
def frame (loop : FrameLoop) (work : ℕ) : Except Fault FrameLoop :=
  let stop := loop.start + UInt32.ofNat work + delayTicks loop.t
  if stop - loop.start = 0 then .error .divisionByZero
  else
    let fps := rtTickPerSecond * 100 / (stop - loop.start)
    .ok ⟨adjust loop.t fps, stop⟩

/-- The ticks that a frame takes. -/
def frameTicks (work t : ℕ) : ℕ := work + max t 1

/-- No frame takes as long as the tick counter takes to come round. -/
def loops : System FrameLoop ℕ Fault where
  enabled loop work := frameTicks work loop.t.toNat < 2 ^ 32
  step := frame

/-! ## The loop on natural numbers -/

/-- The delay after a frame. -/
def pace (work t : ℕ) : ℕ := if frameTicks work t ≤ 33 then t + 1 else t - 1

theorem fast_iff {ticks : ℕ} (hticks : 0 < ticks) : 3000 < 100000 / ticks ↔ ticks ≤ 33 := by
  rw [Nat.lt_iff_add_one_le, Nat.le_div_iff_mul_le hticks]
  omega

theorem pace_le {work t : ℕ} (ht : t ≤ 34) : pace work t ≤ 34 := by
  unfold pace frameTicks
  split_ifs <;> omega

theorem delayTicks_toNat (t : UInt32) : (delayTicks t).toNat = max t.toNat 1 := by
  unfold delayTicks
  split_ifs with hzero
  · rw [hzero]
    rfl
  · have hne : t.toNat ≠ 0 := fun h ↦ hzero (UInt32.toNat_inj.mp h)
    omega

theorem adjust_toNat {t fps : UInt32} (ht : t.toNat ≤ 34) :
    (adjust t fps).toNat = if 3000 < fps.toNat then t.toNat + 1 else t.toNat - 1 := by
  have hfast : fps > 3000 ↔ 3000 < fps.toNat := UInt32.lt_iff_toNat_lt
  have hlimit (t : UInt32) : t > rtTickPerSecond ↔ 1000 < t.toNat := UInt32.lt_iff_toNat_lt
  have hone : (1 : UInt32).toNat = 1 := rfl
  unfold adjust
  simp only [hfast, hlimit]
  split_ifs with hfps hhigh hhigh
  · rw [UInt32.toNat_add, hone] at hhigh
    omega
  · rw [UInt32.toNat_add, hone]
    omega
  · -- the unsigned zero has wrapped round
    rw [UInt32.toNat_sub, hone] at hhigh
    have hzero : (0 : UInt32).toNat = 0 := rfl
    omega
  · rw [UInt32.toNat_sub, hone] at hhigh ⊢
    omega

/-- **One frame** that the tick counter can measure. -/
theorem frame_spec {loop : FrameLoop} {work : ℕ} (ht : loop.t.toNat ≤ 34)
    (hwork : frameTicks work loop.t.toNat < 2 ^ 32) :
    ∃ next, frame loop work = .ok next ∧ next.t.toNat = pace work loop.t.toNat ∧
      (next.start - loop.start).toNat = frameTicks work loop.t.toNat := by
  let stop := loop.start + UInt32.ofNat work + delayTicks loop.t
  have hticks : (stop - loop.start).toNat = frameTicks work loop.t.toNat := by
    have hdelay := delayTicks_toNat loop.t
    have hstart := loop.start.toNat_lt
    unfold frameTicks at hwork ⊢
    simp only [stop, UInt32.toNat_sub, UInt32.toNat_add, UInt32.toNat_ofNat', hdelay]
    omega
  have hpositive : 0 < frameTicks work loop.t.toNat := by
    unfold frameTicks
    omega
  have hdivisor : stop - loop.start ≠ 0 := by
    intro hzero
    rw [hzero] at hticks
    exact absurd hticks (Nat.ne_of_lt hpositive)
  refine ⟨⟨adjust loop.t (rtTickPerSecond * 100 / (stop - loop.start)), stop⟩, if_neg hdivisor, ?_,
    hticks⟩
  have hfps : (rtTickPerSecond * 100 / (stop - loop.start)).toNat =
      100000 / frameTicks work loop.t.toNat := by
    rw [UInt32.toNat_div, hticks]
    rfl
  rw [adjust_toNat ht, hfps, pace]
  simp only [fast_iff hpositive]

theorem frame_progress {loop : FrameLoop} {work : ℕ} (ht : loop.t.toNat ≤ 34)
    (hwork : frameTicks work loop.t.toNat < 2 ^ 32) :
    ∃ next, frame loop work = .ok next ∧ next.t.toNat ≤ 34 := by
  obtain ⟨next, hrun, hnext, _⟩ := frame_spec ht hwork
  exact ⟨next, hrun, hnext ▸ pace_le ht⟩

/-! ## Constant work -/

/-- The delays at which the loop settles. -/
def Settled (work t : ℕ) : Prop :=
  if work ≤ 33 then 33 ≤ frameTicks work t ∧ frameTicks work t ≤ 34 else t ≤ 1

def distance (work t : ℕ) : ℕ :=
  if frameTicks work t < 33 then 34 - t else if 34 < frameTicks work t then t else 0

theorem pace_settles (work : ℕ) : Settles (pace work) (· ≤ 34) (Settled work) (distance work) where
  keeps _ ht := pace_le ht
  stays t ht hsettled := by
    unfold Settled at hsettled ⊢
    split_ifs at hsettled ⊢ with hwork
    · unfold pace frameTicks at *
      split_ifs <;> omega
    · unfold pace frameTicks
      rw [if_neg (by omega)]
      omega
  nears t ht hunsettled := by
    unfold Settled at hunsettled
    unfold distance pace frameTicks at *
    split_ifs at hunsettled ⊢ <;> omega

theorem distance_le (work : ℕ) {t : ℕ} (ht : t ≤ 34) : distance work t ≤ 35 := by
  unfold distance
  split_ifs <;> omega

/-- A frame from a settled delay. -/
theorem frameTicks_of_settled {work t : ℕ} (h : Settled work t) :
    (work ≤ 33 → frameTicks work t = 33 ∨ frameTicks work t = 34) ∧
      (34 ≤ work → frameTicks work t = work + 1) := by
  unfold Settled at h
  split_ifs at h with hwork
  · exact ⟨fun _ ↦ by omega, fun hlong ↦ absurd hlong (by omega)⟩
  · refine ⟨fun hshort ↦ absurd hshort hwork, fun _ ↦ ?_⟩
    unfold frameTicks
    omega

/-- No frame of constant work takes longer than the first, or than 34 ticks. -/
theorem frameTicks_pace_lt {work t : ℕ} (ht : t ≤ 34) (hwork : frameTicks work t < 2 ^ 32) :
    frameTicks work (pace work t) < 2 ^ 32 := by
  unfold pace frameTicks at *
  split_ifs <;> omega

/-- **Constant work** runs the loop at its pace. -/
theorem frames_spec {loop : FrameLoop} {work : ℕ} (ht : loop.t.toNat ≤ 34)
    (hwork : frameTicks work loop.t.toNat < 2 ^ 32) (count : ℕ) :
    ∃ last, (List.replicate count work).foldlM frame loop = .ok last ∧
      last.t.toNat = (pace work)^[count] loop.t.toNat ∧
      frameTicks work last.t.toNat < 2 ^ 32 := by
  induction count generalizing loop with
  | zero => exact ⟨loop, rfl, rfl, hwork⟩
  | succ count ih =>
    obtain ⟨next, hrun, hnext, _⟩ := frame_spec ht hwork
    have hpace : next.t.toNat ≤ 34 := hnext ▸ pace_le ht
    obtain ⟨last, hlast, hdelay, hticks⟩ := ih hpace (hnext ▸ frameTicks_pace_lt ht hwork)
    refine ⟨last, ?_, ?_, hticks⟩
    · rw [List.replicate_succ, List.foldlM_cons, hrun, ok_bind, hlast]
    · rw [Function.iterate_succ_apply, ← hnext, hdelay]

/-- **The frame rate.** Both loops never divide by zero and keep their delay at 34 ticks at most,
over every sequence of frames that the tick counter can measure. With constant work, from any
such delay, every frame after the first 35 takes 33 or 34 ticks, or one tick more than the work. -/
theorem frame_rate :
    (∀ thread ∈ [tftThread, lvglHandleThread], ∀ start works,
      loops.Always (fun _ _ outcome ↦ ∃ next, outcome = .ok next ∧ next.t.toNat ≤ 34)
        (thread start) works) ∧
    ∀ (loop : FrameLoop) (work : ℕ), loop.t.toNat ≤ 34 →
      frameTicks work loop.t.toNat < 2 ^ 32 → ∀ count, 35 ≤ count →
        ∃ last next, (List.replicate count work).foldlM frame loop = .ok last ∧
          frame last work = .ok next ∧
          (work ≤ 33 → (next.start - last.start).toNat = 33 ∨
            (next.start - last.start).toNat = 34) ∧
          (34 ≤ work → (next.start - last.start).toNat = work + 1) := by
  constructor
  · intro thread hthread start works
    have hfirst : (thread start).t.toNat ≤ 34 := by
      simp only [List.mem_cons, List.not_mem_nil, or_false] at hthread
      rcases hthread with rfl | rfl
      · exact (by decide : (10 : UInt32).toNat ≤ 34)
      · exact (by decide : (rtTickPerSecond / 60).toNat ≤ 34)
    refine System.always_iff_forall_run.mpr fun _ work _ reached _ hrun henabled ↦ ?_
    have hreached : reached.t.toNat ≤ 34 := by
      refine hrun.invariant (fun loop work next (hloop : loop.t.toNat ≤ 34) hwork hstep ↦ ?_) hfirst
      obtain ⟨other, hother, hnext⟩ := frame_progress hloop hwork
      obtain rfl : other = next := Except.ok.inj (hother.symm.trans hstep)
      exact hnext
    exact frame_progress hreached henabled
  · intro loop work ht hwork count hcount
    obtain ⟨last, hrun, hdelay, hticks⟩ := frames_spec ht hwork count
    have hsettles := pace_settles work
    have hlast : last.t.toNat ≤ 34 := hdelay ▸ hsettles.invariant_iterate ht count
    have hsettled : Settled work last.t.toNat :=
      hdelay ▸ hsettles.iterate ht (Nat.le_trans (distance_le work ht) hcount)
    obtain ⟨next, hnext, _, htaken⟩ := frame_spec hlast hticks
    refine ⟨last, next, hrun, hnext, ?_⟩
    rw [htaken]
    exact frameTicks_of_settled hsettled

/-- Without work, the loop of the panel takes 33 or 34 ticks after 35 frames. -/
theorem frame_rate_idle : ∃ last next, (List.replicate 35 0).foldlM frame (tftThread 0) = .ok last ∧
    frame last 0 = .ok next ∧
    ((next.start - last.start).toNat = 33 ∨ (next.start - last.start).toNat = 34) := by
  obtain ⟨last, next, hrun, hnext, hshort, _⟩ :=
    frame_rate.2 (tftThread 0) 0 (by decide) (by decide) 35 (Nat.le_refl 35)
  exact ⟨last, next, hrun, hnext, hshort (by decide)⟩

/-- A frame that takes the whole range of the tick counter. -/
theorem long_frame_divides_by_zero :
    ¬ ∀ (start : UInt32) (works : List ℕ), ∃ last,
      works.foldlM frame (tftThread start) = .ok last ∧ last.t.toNat ≤ 34 := by
  intro h
  obtain ⟨last, hlast, _⟩ := h 0 [4294967286]
  have hfault : [4294967286].foldlM frame (tftThread 0) = .error .divisionByZero := by decide
  cases hfault.symm.trans hlast

end K210Firmware.Display.FrameRate
