import K210Firmware.Library.Tickets
import K210Firmware.Pin.Channels

/-!
# Freeing a channel

`free_pin_channel` decrements the counter, whichever channel the pin held. The counter is thereby
always the start plus the number of pins that hold a channel, and a pin is given the channel that
this number stands for. A channel that was given to another pin at the same number of holders may
still be held.
-/

namespace K210Firmware.Pin.Freeing

open Channels

def freePinChannel (driver : Driver) (pin : PinIndex) : Driver × List Effect :=
  if driver.pinAllocTable pin = -1 then
    (driver, [.logWarning ("free error:not alloc gpiohs channel for pin " ++ toString pin.val)])
  else
    ({ pinAllocTable := Function.update driver.pinAllocTable pin (-1)
       freePin := driver.freePin - 1 }, [])

inductive Call
  | allocPinChannel (pin : PinIndex)
  | freePinChannel (pin : PinIndex)
  deriving DecidableEq, Repr

def serve (driver : Driver) : Call → Driver
  | .allocPinChannel pin => (allocPinChannel driver pin).2.1
  | .freePinChannel pin => (freePinChannel driver pin).1

/-- The driver after `rt_hw_pin_init` and a sequence of calls. -/
def served (config : BspConfig) (calls : List Call) : Driver :=
  calls.foldl serve (rtHwPinInit config)

def channelHolders (driver : Driver) : Finset PinIndex :=
  Finset.univ.filter fun pin ↦ driver.pinAllocTable pin ≠ -1

/-- Pins that hold a channel hold different ones, and the counter counts them. -/
structure Handed (config : BspConfig) (driver : Driver) : Prop where
  distinct : ∀ pin other, driver.pinAllocTable pin ≠ -1 →
    driver.pinAllocTable pin = driver.pinAllocTable other → pin = other
  counted : (driver.freePin : ℤ) - gpioAllocStart config = (channelHolders driver).card

/-! ## The tickets behind the channels -/

def Call.request : Call → Tickets.Request PinIndex
  | allocPinChannel pin => .acquire pin
  | freePinChannel pin => .release pin

/-- The number of pins that held a channel when a pin got the one it still holds. -/
def heldAfter (config : BspConfig) (calls : List Call) : Tickets PinIndex :=
  Tickets.held (channelLimit config) (calls.map Call.request)

/-- A channel is the start plus the number of holders at the time it was given. -/
structure Issues (config : BspConfig) (tickets : Tickets PinIndex) (driver : Driver) : Prop where
  table : ∀ pin, driver.pinAllocTable pin =
    (tickets pin).elim (-1 : ℤ) fun number ↦ ((gpioAllocStart config + number : ℕ) : ℤ)
  freePin : driver.freePin = gpioAllocStart config + Tickets.count tickets
  limit : Tickets.count tickets ≤ channelLimit config

variable {config : BspConfig} {tickets : Tickets PinIndex} {driver : Driver} {pin : PinIndex}

theorem rtHwPinInit_issues (config : BspConfig) :
    Issues config Tickets.initial (rtHwPinInit config) where
  table _ := rfl
  freePin := by rw [Tickets.count_initial]; rfl
  limit := by rw [Tickets.count_initial]; exact Nat.zero_le _

theorem Issues.table_eq_neg_one_iff (h : Issues config tickets driver) :
    driver.pinAllocTable pin = -1 ↔ tickets pin = none := by
  rw [h.table]
  cases tickets pin with
  | none => simp
  | some number => simp only [Option.elim_some, reduceCtorEq]

theorem Issues.freePin_eq_iff (h : Issues config tickets driver) :
    driver.freePin = 31 ↔ Tickets.count tickets = channelLimit config := by
  have hstart := gpioAllocStart_le config
  rw [h.freePin, channelLimit]
  omega

theorem Issues.alloc (h : Issues config tickets driver) (pin : PinIndex) :
    Issues config (Tickets.acquire (channelLimit config) tickets pin)
      (allocPinChannel driver pin).2.1 := by
  have hlimit := h.limit
  by_cases hfull : driver.freePin = 31
  · rw [allocPinChannel, if_pos hfull, Tickets.acquire_of_full (h.freePin_eq_iff.mp hfull).ge]
    exact h
  have hroom : Tickets.count tickets < channelLimit config :=
    lt_of_le_of_ne hlimit fun hcount ↦ hfull (h.freePin_eq_iff.mpr hcount)
  by_cases hnew : tickets pin = none
  · rw [allocPinChannel, if_neg hfull, if_neg (not_not.mpr (h.table_eq_neg_one_iff.mpr hnew)),
      Tickets.acquire_of_new hnew hroom]
    refine ⟨fun other ↦ ?_, ?_, ?_⟩
    · by_cases hother : other = pin
      · simp [hother, h.freePin]
      · simp [hother, h.table]
    · rw [Tickets.count_update_some hnew, h.freePin]
      rfl
    · rw [Tickets.count_update_some hnew]
      exact hroom
  · rw [allocPinChannel, if_neg hfull, if_pos (mt h.table_eq_neg_one_iff.mp hnew),
      Tickets.acquire_of_held hnew]
    exact h

theorem Issues.free (h : Issues config tickets driver) (pin : PinIndex) :
    Issues config (Tickets.release tickets pin) (freePinChannel driver pin).1 := by
  by_cases hnone : tickets pin = none
  · rw [freePinChannel, if_pos (h.table_eq_neg_one_iff.mpr hnone), Tickets.release_of_none hnone]
    exact h
  · have hcount := Tickets.count_release hnone
    have hlimit := h.limit
    rw [freePinChannel, if_neg (mt h.table_eq_neg_one_iff.mp hnone)]
    refine ⟨fun other ↦ ?_, ?_, by omega⟩
    · by_cases hother : other = pin
      · simp [Tickets.release, hother]
      · simp [Tickets.release, hother, h.table]
    · -- the counter is positive here, so the decrement does not wrap
      simp only [h.freePin]
      omega

theorem Issues.serve (h : Issues config tickets driver) (call : Call) :
    Issues config (Tickets.serve (channelLimit config) tickets call.request)
      (serve driver call) := by
  cases call with
  | allocPinChannel pin => exact h.alloc pin
  | freePinChannel pin => exact h.free pin

/-- **Refinement.** After any sequence of calls the table holds the tickets of the calls. -/
theorem served_issues (config : BspConfig) (calls : List Call) :
    Issues config (heldAfter config calls) (served config calls) := by
  induction calls using List.reverseRecOn with
  | nil => exact rtHwPinInit_issues config
  | append_singleton calls call ih =>
    rw [heldAfter, List.map_append, List.map_singleton, Tickets.held_append, served,
      List.foldl_append]
    exact ih.serve call

/-! ## Distinct channels -/

theorem Issues.counted (h : Issues config tickets driver) :
    (driver.freePin : ℤ) - gpioAllocStart config = (channelHolders driver).card := by
  have hholders : channelHolders driver = Tickets.holders tickets := by
    ext pin
    simp [channelHolders, Tickets.mem_holders, h.table_eq_neg_one_iff]
  have hcount : (channelHolders driver).card = Tickets.count tickets := by
    rw [hholders]
    rfl
  rw [hcount, h.freePin]
  omega

theorem handed_iff (h : Issues config tickets driver) :
    Handed config driver ↔ Tickets.Distinct tickets := by
  constructor
  · intro hhanded pin other number hpin hother
    apply hhanded.distinct
    · rw [ne_eq, h.table_eq_neg_one_iff, hpin]
      nofun
    · rw [h.table, h.table, hpin, hother]
  · refine fun hdistinct ↦ ⟨fun pin other hchannel hsame ↦ ?_, h.counted⟩
    obtain ⟨number, hpin⟩ := Option.ne_none_iff_exists'.mp (mt h.table_eq_neg_one_iff.mpr hchannel)
    obtain ⟨number', hother⟩ := Option.ne_none_iff_exists'.mp
      (mt h.table_eq_neg_one_iff.mpr (hsame ▸ hchannel))
    rw [h.table, h.table, hpin, hother] at hsame
    simp only [Option.elim_some] at hsame
    have hnumber : number = number' := by omega
    exact hdistinct pin other number hpin (hnumber ▸ hother)

/-- When a pin is given a channel, no pin that still holds its channel was given it when as many
pins held one as do now. -/
def Apart (config : BspConfig) (calls : List Call) : Prop :=
  ∀ before pin after, calls = before ++ .allocPinChannel pin :: after →
    heldAfter config before pin = none →
      Tickets.count (heldAfter config before) < channelLimit config →
        ∀ other, heldAfter config before other ≠ some (Tickets.count (heldAfter config before))

/-- **Freed channels.** In every configuration the channels stay different over a sequence of calls
exactly when the calls are apart. -/
theorem channels_handed_iff (config : BspConfig) (calls : List Call) :
    (∀ before after, calls = before ++ after → Handed config (served config before)) ↔
      Apart config calls := by
  have hdistinct := Tickets.distinct_iff (channelLimit config) (calls.map Call.request)
  have hhanded (before : List Call) := handed_iff (served_issues config before)
  constructor
  · intro h before pin after hsplit
    have hprefixes : ∀ requests rest, calls.map Call.request = requests ++ rest →
        Tickets.Distinct (Tickets.held (channelLimit config) requests) := by
      intro requests rest hrequests
      obtain ⟨front, back, hcalls, rfl, _⟩ := List.map_eq_append_iff.mp hrequests
      exact (hhanded front).mp (h front back hcalls)
    refine hdistinct.mp hprefixes (before.map Call.request) (.acquire pin)
      (after.map Call.request) ?_
    rw [hsplit, List.map_append, List.map_cons]
    rfl
  · intro h before after hsplit
    refine (hhanded before).mpr (hdistinct.mpr ?_ (before.map Call.request)
      (after.map Call.request) (by rw [hsplit, List.map_append]))
    intro requests request rest hrequests
    obtain ⟨front, back, hcalls, rfl, hback⟩ := List.map_eq_append_iff.mp hrequests
    obtain ⟨call, tail, rfl, rfl, _⟩ := List.map_eq_cons_iff.mp hback
    cases call with
    | allocPinChannel pin => exact h front pin tail hcalls
    | freePinChannel pin => exact trivial

/-- Two pins take channels, the first gives its own back, and a third takes the second's. -/
theorem freed_channel_is_shared :
    ¬ ∀ before after, [Call.allocPinChannel 0, .allocPinChannel 1, .freePinChannel 0,
        .allocPinChannel 3] = before ++ after →
      Handed shipped (served shipped before) := by
  intro h
  have hlast := (h _ [] (List.append_nil _).symm).distinct 1 3
  exact absurd (hlast (by decide) (by decide)) (by decide)

/-- **Last in, first out.** If each call that frees a channel frees the one given last, then the
channels are different. -/
theorem handed_of_reverse {calls : List Call}
    (h : Tickets.Reverse (channelLimit config) (calls.map Call.request)) :
    Handed config (served config calls) :=
  (handed_iff (served_issues config calls)).mpr (Tickets.distinct_of_reverse h).2

end K210Firmware.Pin.Freeing
