import K210Firmware.Library.Heap
import Mathlib.Data.Fin.VecNotation
import Mathlib.Tactic.Ring
import Mathlib.Data.UInt

/-!
# Usage records

`cpu_usage.c` keeps, for every thread and both cores, the ticks of the last entry and of the last
leave, the ticks counted in the running period and the cost of the last one. Three pieces of code
write to a record: a switch out, a switch in, and the timer interrupt at the end of a period.
-/

namespace K210Firmware.CpuUsage

open Memory

abbrev Core := Fin 2

/-- The cores are numbered with literals. -/
instance Core.neZero : NeZero 2 := ⟨Nat.succ_ne_zero 1⟩

/-- `struct thread_usage`. -/
structure ThreadUsage where
  magic : UInt32
  enterTick : Core → UInt64
  leaveTick : Core → UInt64
  countTick : Core → UInt64
  costTick : Core → UInt64
  major : Core → UInt8
  minor : Core → UInt8
  userData : Address

def magicNum : UInt32 := 0x6e6e56e8

namespace ThreadUsage

/-- A block whose bytes are all zero. -/
def zero : ThreadUsage := ⟨0, 0, 0, 0, 0, 0, 0, 0⟩

variable (record : ThreadUsage)

def getCountTime (core : Core) : UInt64 := record.leaveTick core - record.enterTick core

/-- What `schedule_hook` writes to a new block for the thread that is switched out. -/
def initFrom (core : Core) (tick : UInt64) : ThreadUsage :=
  { record with
    magic := magicNum
    enterTick := Function.update record.enterTick core tick }

/-- What `schedule_hook` writes to a new block for the thread that is switched in. -/
def initTo : ThreadUsage := { record with magic := magicNum }

def stampLeave (core : Core) (tick : UInt64) : ThreadUsage :=
  { record with leaveTick := Function.update record.leaveTick core tick }

/-- The leave stamp, and the addition of the time since the entry to the count. -/
def leave (core : Core) (tick : UInt64) : ThreadUsage :=
  let record := record.stampLeave core tick
  { record with
    countTick := Function.update record.countTick core
      (record.countTick core + record.getCountTime core) }

def enter (core : Core) (tick : UInt64) : ThreadUsage :=
  { record with enterTick := Function.update record.enterTick core tick }

/-- The first `if` of the loop body: a thread that is still running is counted up to now. -/
def rebase (core : Core) (tick : UInt64) : ThreadUsage :=
  if record.enterTick core > record.leaveTick core then (record.leave core tick).enter core tick
  else record

/-- The count becomes the cost of the period. -/
def close (core : Core) : ThreadUsage :=
  { record with
    costTick := Function.update record.costTick core (record.countTick core)
    countTick := Function.update record.countTick core 0 }

/-- The whole percents of a cost, and zero for a cost above one period. -/
def majorOf (cost reload : UInt64) : UInt8 :=
  if cost ≤ reload then (cost * 100 / reload).toUInt8 else 0

/-- The hundredths of a percent that are left. -/
def minorOf (cost reload : UInt64) : UInt8 :=
  if cost ≤ reload then ((cost * 100 % reload) * 100 / reload).toUInt8 else 0

/-- The second `if` of the loop body. -/
def report (core : Core) (reload : UInt64) : ThreadUsage :=
  { record with
    major := Function.update record.major core (majorOf (record.costTick core) reload)
    minor := Function.update record.minor core (minorOf (record.costTick core) reload) }

/-- The body of the inner loop of `timer_irq`. -/
def settleCore (core : Core) (tick reload : UInt64) : ThreadUsage :=
  ((record.rebase core tick).close core).report core reload

def settle (tick reload : UInt64) : ThreadUsage :=
  (record.settleCore 0 tick reload).settleCore 1 tick reload

/-! ## The fields after each operation -/

variable {record} {core i : Core} {tick reload : UInt64}

theorem leave_self (record : ThreadUsage) (core : Core) (tick : UInt64) :
    (record.leave core tick).enterTick core = record.enterTick core ∧
      (record.leave core tick).leaveTick core = tick ∧
      (record.leave core tick).countTick core =
        record.countTick core + (tick - record.enterTick core) := by
  simp [leave, stampLeave, getCountTime]

theorem leave_of_ne (h : i ≠ core) :
    (record.leave core tick).enterTick i = record.enterTick i ∧
      (record.leave core tick).leaveTick i = record.leaveTick i ∧
      (record.leave core tick).countTick i = record.countTick i := by
  simp [leave, stampLeave, h]

theorem enter_self (record : ThreadUsage) (core : Core) (tick : UInt64) :
    (record.enter core tick).enterTick core = tick ∧
      (record.enter core tick).leaveTick core = record.leaveTick core ∧
      (record.enter core tick).countTick core = record.countTick core := by
  simp [enter]

theorem enter_of_ne (h : i ≠ core) :
    (record.enter core tick).enterTick i = record.enterTick i ∧
      (record.enter core tick).leaveTick i = record.leaveTick i ∧
      (record.enter core tick).countTick i = record.countTick i := by
  simp [enter, h]

/-- The two records agree on the fields of one core. -/
structure SameOn (core : Core) (first second : ThreadUsage) : Prop where
  enterTick : first.enterTick core = second.enterTick core
  leaveTick : first.leaveTick core = second.leaveTick core
  countTick : first.countTick core = second.countTick core
  costTick : first.costTick core = second.costTick core
  major : first.major core = second.major core
  minor : first.minor core = second.minor core

theorem settleCore_of_ne (h : i ≠ core) : SameOn i (record.settleCore core tick reload) record := by
  have hrebase : SameOn i (record.rebase core tick) record := by
    unfold rebase
    split_ifs
    · constructor <;> simp [leave, stampLeave, enter, h]
    · exact ⟨rfl, rfl, rfl, rfl, rfl, rfl⟩
  constructor <;> simp [settleCore, report, close, h, hrebase.enterTick, hrebase.leaveTick,
    hrebase.countTick, hrebase.costTick, hrebase.major, hrebase.minor]

/-- The work of a core depends on the fields of that core alone. -/
theorem settleCore_congr {other : ThreadUsage} (h : SameOn core record other) :
    SameOn core (record.settleCore core tick reload) (other.settleCore core tick reload) := by
  have hrebase : SameOn core (record.rebase core tick) (other.rebase core tick) := by
    unfold rebase
    rw [h.enterTick, h.leaveTick]
    split_ifs
    · constructor <;> simp [leave, stampLeave, enter, getCountTime, h.enterTick, h.countTick,
        h.costTick, h.major, h.minor]
    · exact h
  constructor <;> simp [settleCore, report, close, hrebase.enterTick, hrebase.leaveTick,
    hrebase.countTick]

/-- Each core is settled as if it were the only one. -/
theorem settle_sameOn (record : ThreadUsage) (tick reload : UInt64) (core : Core) :
    SameOn core (record.settle tick reload) (record.settleCore core tick reload) := by
  match core with
  | 0 => exact settleCore_of_ne (by decide)
  | 1 => exact settleCore_congr (settleCore_of_ne (by decide))

theorem magic_settleCore : (record.settleCore core tick reload).magic = record.magic := by
  unfold settleCore rebase
  split_ifs <;> rfl

@[simp]
theorem magic_settle : (record.settle tick reload).magic = record.magic := by
  rw [settle, magic_settleCore, magic_settleCore]

/-- A core on which the thread still runs, by the stamps, is counted up to now and rebased. -/
theorem settle_of_lt (h : record.leaveTick core < record.enterTick core) (tick reload : UInt64) :
    (record.settle tick reload).enterTick core = tick ∧
      (record.settle tick reload).leaveTick core = tick ∧
      (record.settle tick reload).countTick core = 0 ∧
      (record.settle tick reload).costTick core =
        record.countTick core + (tick - record.enterTick core) := by
  obtain ⟨henter, hleave, hcount, hcost, _, _⟩ :=
    settle_sameOn record tick reload core
  rw [henter, hleave, hcount, hcost]
  simp [settleCore, report, close, rebase, h, leave, stampLeave, enter, getCountTime]

/-- Any other core keeps its stamps. -/
theorem settle_of_not_lt (h : ¬ record.leaveTick core < record.enterTick core)
    (tick reload : UInt64) :
    (record.settle tick reload).enterTick core = record.enterTick core ∧
      (record.settle tick reload).leaveTick core = record.leaveTick core ∧
      (record.settle tick reload).countTick core = 0 ∧
      (record.settle tick reload).costTick core = record.countTick core := by
  obtain ⟨henter, hleave, hcount, hcost, _, _⟩ :=
    settle_sameOn record tick reload core
  rw [henter, hleave, hcount, hcost]
  simp [settleCore, report, close, rebase, h]

theorem countTick_settle (record : ThreadUsage) (tick reload : UInt64) (core : Core) :
    (record.settle tick reload).countTick core = 0 := by
  by_cases h : record.leaveTick core < record.enterTick core
  · exact (settle_of_lt h tick reload).2.2.1
  · exact (settle_of_not_lt h tick reload).2.2.1

/-- The reported percentage is that of the reported cost. -/
theorem settle_report (record : ThreadUsage) (tick reload : UInt64) (core : Core) :
    (record.settle tick reload).major core =
        majorOf ((record.settle tick reload).costTick core) reload ∧
      (record.settle tick reload).minor core =
        minorOf ((record.settle tick reload).costTick core) reload := by
  obtain ⟨_, _, _, hcost, hmajor, hminor⟩ :=
    settle_sameOn record tick reload core
  rw [hmajor, hminor, hcost]
  simp [settleCore, report, close]

/-! ## The percentage -/

theorem percent_eq {cost reload : ℕ} (hreload : 0 < reload) :
    100 * (cost * 100 / reload) + cost * 100 % reload * 100 / reload = 10000 * cost / reload := by
  have hsplit := Nat.div_add_mod (cost * 100) reload
  have hscale : 10000 * cost =
      cost * 100 % reload * 100 + reload * (100 * (cost * 100 / reload)) := by
    calc 10000 * cost = 100 * (cost * 100) := by ring
      _ = 100 * (reload * (cost * 100 / reload) + cost * 100 % reload) := by rw [hsplit]
      _ = cost * 100 % reload * 100 + reload * (100 * (cost * 100 / reload)) := by ring
  rw [hscale, Nat.add_mul_div_left _ _ hreload]
  omega

/-- **The report.** For a cost of at most one period, the two bytes spell the cost in hundredths of
a percent of the period. -/
theorem report_eq {cost reload : UInt64} (hreload : 0 < reload.toNat)
    (hbound : reload.toNat < 2 ^ 32) (hcost : cost ≤ reload) :
    100 * (majorOf cost reload).toNat + (minorOf cost reload).toNat =
      10000 * cost.toNat / reload.toNat := by
  have hle : cost.toNat ≤ reload.toNat := UInt64.le_iff_toNat_le.mp hcost
  have hhundred : (cost * 100).toNat = cost.toNat * 100 := by
    rw [UInt64.toNat_mul]
    exact Nat.mod_eq_of_lt (show cost.toNat * 100 < 2 ^ 64 by omega)
  have hmajor : cost.toNat * 100 / reload.toNat ≤ 100 :=
    Nat.div_le_of_le_mul (Nat.mul_le_mul_right 100 hle)
  have hrest : cost.toNat * 100 % reload.toNat < reload.toNat := Nat.mod_lt _ hreload
  have hrests : ((cost * 100 % reload) * 100).toNat = cost.toNat * 100 % reload.toNat * 100 := by
    rw [UInt64.toNat_mul, UInt64.toNat_mod, hhundred]
    exact Nat.mod_eq_of_lt (show cost.toNat * 100 % reload.toNat * 100 < 2 ^ 64 by omega)
  have hminor : cost.toNat * 100 % reload.toNat * 100 / reload.toNat < 100 :=
    Nat.div_lt_of_lt_mul (by rw [Nat.mul_comm]; omega)
  have hmajorByte : (majorOf cost reload).toNat = cost.toNat * 100 / reload.toNat := by
    rw [majorOf, if_pos hcost, UInt64.toNat_toUInt8, UInt64.toNat_div, hhundred]
    exact Nat.mod_eq_of_lt (by omega)
  have hminorByte : (minorOf cost reload).toNat =
      cost.toNat * 100 % reload.toNat * 100 / reload.toNat := by
    rw [minorOf, if_pos hcost, UInt64.toNat_toUInt8, UInt64.toNat_div, hrests]
    exact Nat.mod_eq_of_lt (by omega)
  rw [hmajorByte, hminorByte, percent_eq hreload]

end ThreadUsage

end K210Firmware.CpuUsage
