import K210Firmware.CpuUsage.Record
import K210Firmware.Library.Ledger

/-!
# The account of one thread on one core

The stamps and the count of a record are an account of the time its thread has run on a core.
`Account` is its balance; each operation of `cpu_usage.c` on a record keeps it, so the same
balance serves every history of switches and interrupts.
-/

namespace K210Firmware.CpuUsage

open ThreadUsage

/-- The time counted by the record and not yet stamped: that of a thread still running. -/
def openTime (record : ThreadUsage) (core : Core) (running : Prop) [Decidable running] (now : ℕ) :
    ℕ :=
  if running then now - (record.enterTick core).toNat else 0

/-- The balance at `now` of a thread that has run `ran` ticks, `born` of them without a record, and
`reported` of which earlier interrupts have reported. -/
structure Account (record : ThreadUsage) (core : Core) (running : Prop) [Decidable running]
    (now reported born ran : ℕ) : Prop where
  enter_le : (record.enterTick core).toNat ≤ now
  leave_le : (record.leaveTick core).toNat ≤ now
  running_order : running → (record.leaveTick core).toNat ≤ (record.enterTick core).toNat
  resting_order : ¬ running → (record.enterTick core).toNat ≤ (record.leaveTick core).toNat
  balance : (record.countTick core).toNat + openTime record core running now + reported + born = ran

variable {record : ThreadUsage} {core i : Core} {running : Prop} [Decidable running]
  {now reported born ran : ℕ} {tick reload : UInt64}

/-- A cleared record that has only been marked accounts for nothing. -/
theorem Account.initTo (core : Core) (now ran : ℕ) :
    Account zero.initTo core False now 0 ran ran := by
  constructor <;> simp [ThreadUsage.initTo, zero, openTime]

theorem Account.initFrom_self (core : Core) (tick : UInt64) (ran : ℕ) :
    Account (zero.initFrom core tick) core True tick.toNat 0 ran ran := by
  constructor <;> simp [initFrom, zero, openTime]

theorem Account.initFrom_of_ne (h : i ≠ core) (now ran : ℕ) :
    Account (zero.initFrom core tick) i False now 0 ran ran := by
  constructor <;> simp [initFrom, zero, openTime, h]

theorem Account.of_iff {other : Prop} [Decidable other]
    (h : Account record core running now reported born ran) (hiff : running ↔ other) :
    Account record core other now reported born ran := by
  obtain ⟨h1, h2, h3, h4, h5⟩ := h
  refine ⟨h1, h2, fun hother ↦ h3 (hiff.mpr hother), fun hother ↦ h4 (mt hiff.mp hother), ?_⟩
  rw [openTime] at h5 ⊢
  simpa only [hiff] using h5

/-- While time passes, the open time of a running thread grows with the time it has run. -/
theorem Account.advance (h : Account record core running now reported born ran) {later : ℕ}
    (hlater : now ≤ later) :
    Account record core running later reported born (ran + if running then later - now else 0) := by
  refine ⟨h.enter_le.trans hlater, h.leave_le.trans hlater, h.running_order, h.resting_order, ?_⟩
  have hbalance := h.balance
  have henter := h.enter_le
  unfold openTime at hbalance ⊢
  split_ifs at hbalance ⊢ <;> omega

/-- A switch out moves the open time to the count. -/
theorem Account.leave (h : Account record core True tick.toNat reported born ran)
    (hran : ran ≤ tick.toNat) :
    Account (record.leave core tick) core False tick.toNat reported born ran := by
  obtain ⟨henter, hleave, hcount⟩ := leave_self record core tick
  have hbalance := h.balance
  have htick := tick.toNat_lt
  have hle := h.enter_le
  rw [openTime, if_pos trivial] at hbalance
  have hsum : ((record.leave core tick).countTick core).toNat =
      (record.countTick core).toNat + (tick.toNat - (record.enterTick core).toNat) := by
    rw [hcount, UInt64.toNat_add, UInt64.toNat_sub_of_le _ _ (UInt64.le_iff_toNat_le.mpr hle)]
    exact Nat.mod_eq_of_lt (by omega)
  refine ⟨by rwa [henter], by rw [hleave], fun hrunning ↦ hrunning.elim, fun _ ↦ ?_, ?_⟩
  · rwa [henter, hleave]
  · rw [hsum, openTime, if_neg not_false]
    omega

theorem Account.enter (h : Account record core False tick.toNat reported born ran) :
    Account (record.enter core tick) core True tick.toNat reported born ran := by
  obtain ⟨henter, hleave, hcount⟩ := enter_self record core tick
  have hbalance := h.balance
  rw [openTime, if_neg not_false] at hbalance
  refine ⟨by rw [henter], by rw [hleave]; exact h.leave_le, fun _ ↦ ?_,
    fun hresting ↦ absurd trivial hresting, ?_⟩
  · rw [henter, hleave]
    exact h.leave_le
  · rw [hcount, openTime, if_pos trivial, henter]
    omega

theorem Account.congr {other : ThreadUsage} (h : Account record core running now reported born ran)
    (henter : other.enterTick core = record.enterTick core)
    (hleave : other.leaveTick core = record.leaveTick core)
    (hcount : other.countTick core = record.countTick core) :
    Account other core running now reported born ran := by
  obtain ⟨h1, h2, h3, h4, h5⟩ := h
  rw [openTime] at h5
  exact ⟨henter ▸ h1, hleave ▸ h2, hleave ▸ henter ▸ h3, hleave ▸ henter ▸ h4, by
    rw [openTime, hcount, henter, h5]⟩

theorem Account.leave_of_ne (h : Account record i running now reported born ran) (hne : i ≠ core) :
    Account (record.leave core tick) i running now reported born ran :=
  h.congr (ThreadUsage.leave_of_ne hne).1 (ThreadUsage.leave_of_ne hne).2.1
    (ThreadUsage.leave_of_ne hne).2.2

theorem Account.enter_of_ne (h : Account record i running now reported born ran) (hne : i ≠ core) :
    Account (record.enter core tick) i running now reported born ran :=
  h.congr (ThreadUsage.enter_of_ne hne).1 (ThreadUsage.enter_of_ne hne).2.1
    (ThreadUsage.enter_of_ne hne).2.2

/-- The interrupt moves the count, and the open time of a thread it recognises as running, to the
reported cost. -/
theorem Account.settle (h : Account record core running tick.toNat reported born ran)
    (reload : UInt64) (hran : ran ≤ tick.toNat) :
    Account (record.settle tick reload) core running tick.toNat
      (reported + ((record.settle tick reload).costTick core).toNat) born ran := by
  have hbalance := h.balance
  have htick := tick.toNat_lt
  have hle := h.enter_le
  by_cases hopen : record.leaveTick core < record.enterTick core
  · have hlt := UInt64.lt_iff_toNat_lt.mp hopen
    have hrunning : running := by
      by_contra hresting
      exact absurd (h.resting_order hresting) (by omega)
    obtain ⟨henter, hleave, hcount, hcost⟩ := settle_of_lt hopen tick reload
    rw [openTime, if_pos hrunning] at hbalance
    have hsum : ((record.settle tick reload).costTick core).toNat =
        (record.countTick core).toNat + (tick.toNat - (record.enterTick core).toNat) := by
      rw [hcost, UInt64.toNat_add, UInt64.toNat_sub_of_le _ _ (UInt64.le_iff_toNat_le.mpr hle)]
      exact Nat.mod_eq_of_lt (by omega)
    refine ⟨by rw [henter], by rw [hleave], fun _ ↦ by rw [henter, hleave],
      fun hresting ↦ absurd hrunning hresting, ?_⟩
    rw [hcount, hsum, openTime, if_pos hrunning, henter, UInt64.toNat_zero]
    omega
  · obtain ⟨henter, hleave, hcount, hcost⟩ := settle_of_not_lt hopen tick reload
    refine ⟨by rwa [henter], by rw [hleave]; exact h.leave_le, ?_, ?_, ?_⟩
    · rw [henter, hleave]
      exact h.running_order
    · rw [henter, hleave]
      exact h.resting_order
    · rw [openTime] at hbalance
      rw [hcount, hcost, openTime, henter, UInt64.toNat_zero]
      omega

/-- After the interrupt no time is open exactly when the thread does not run, or was recognised as
running, or has only just entered. -/
theorem openTime_settle_eq_zero_iff (h : Account record core running tick.toNat reported born ran) :
    openTime (record.settle tick reload) core running tick.toNat = 0 ↔
      (running → record.leaveTick core < record.enterTick core ∨ record.enterTick core = tick) := by
  have hle := h.enter_le
  by_cases hopen : record.leaveTick core < record.enterTick core
  · obtain ⟨henter, _⟩ := settle_of_lt hopen tick reload
    simp [openTime, henter, hopen]
  · obtain ⟨henter, _⟩ := settle_of_not_lt hopen tick reload
    rw [openTime, henter, ite_eq_right_iff]
    refine forall_congr' fun _ ↦ ?_
    rw [or_iff_right hopen, ← UInt64.toNat_inj]
    omega

end K210Firmware.CpuUsage
