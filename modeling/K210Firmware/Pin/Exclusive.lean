import K210Firmware.Pin.Channels

/-!
# Exclusive channels

The counter alone keeps the channels of the driver apart from each other, in every configuration,
and above the channels reserved by name. It does not know the three channels that the firmware
binds by literal numbers. In the shipped configuration nothing is reserved, the counter starts at
zero, and the third pin is given the channel that `io_config` routes to IO 8.
-/

namespace K210Firmware.Pin.Exclusive

open Channels

/-- The channels of the table are GPIOHS channels, no two pins share one, and none is bound
elsewhere. -/
structure TableExclusive (driver : Driver) : Prop where
  range : ∀ pin, driver.pinAllocTable pin ≠ -1 →
    0 ≤ driver.pinAllocTable pin ∧ driver.pinAllocTable pin ≤ 31
  distinct : ∀ pin other, driver.pinAllocTable pin ≠ -1 →
    driver.pinAllocTable pin = driver.pinAllocTable other → pin = other
  unbound : ∀ pin, driver.pinAllocTable pin ∉ boundChannels

/-- A pin that holds a channel in `driver` holds it in `later`. -/
def Kept (driver later : Driver) : Prop :=
  ∀ pin, driver.pinAllocTable pin ≠ -1 → later.pinAllocTable pin = driver.pinAllocTable pin

/-- After every call the channels are exclusive, and later calls keep them. -/
def ChannelsExclusive (config : BspConfig) (calls : List Call) : Prop :=
  ∀ before after, calls = before ++ after →
    TableExclusive (configured config before) ∧
      Kept (configured config before) (configured config calls)

variable {config : BspConfig} {numbering : Numbering PinIndex} {driver : Driver}

/-- A recorded channel is the start plus the number of its pin. -/
theorem exists_number_of_channel (h : Stores config numbering driver) {pin : PinIndex}
    (hchannel : driver.pinAllocTable pin ≠ -1) :
    ∃ value, numbering.number pin = some value ∧
      driver.pinAllocTable pin = ((gpioAllocStart config + value : ℕ) : ℤ) := by
  have htable := h.table pin
  rcases hvalue : numbering.number pin with _ | value
  · rw [hvalue] at htable
    exact absurd htable hchannel
  · rw [hvalue] at htable
    exact ⟨value, rfl, htable⟩

/-- **Channels among pins.** In every configuration the channels of the driver lie between the
start and the exhaustion check, and different pins hold different ones. -/
theorem stores_distinct (h : Stores config numbering driver) :
    (∀ pin, driver.pinAllocTable pin ≠ -1 →
      gpioAllocStart config ≤ driver.pinAllocTable pin ∧ driver.pinAllocTable pin < 31) ∧
    ∀ pin other, driver.pinAllocTable pin ≠ -1 →
      driver.pinAllocTable pin = driver.pinAllocTable other → pin = other := by
  constructor
  · intro pin hchannel
    obtain ⟨value, hvalue, htable⟩ := exists_number_of_channel h hchannel
    have hlt := Numbering.number_lt hvalue
    have hlimit := h.limit
    rw [channelLimit] at hlimit
    omega
  · intro pin other hchannel hsame
    obtain ⟨value, hvalue, htable⟩ := exists_number_of_channel h hchannel
    obtain ⟨value', hvalue', htable'⟩ := exists_number_of_channel h (hsame ▸ hchannel)
    have heq : value = value' := by omega
    subst heq
    exact Numbering.number_injective hvalue hvalue'

theorem Kept.refl (driver : Driver) : Kept driver driver := fun _ _ ↦ rfl

/-- One call keeps every channel. -/
theorem kept_drvPinMode (h : Stores config numbering driver) (pin : PinIndex) (mode : ℤ) :
    Kept driver (drvPinMode driver pin mode).1 := by
  intro other hchannel
  obtain ⟨value, hvalue, htable⟩ := exists_number_of_channel h hchannel
  rw [(h.drvPinMode pin mode).table, Numbering.number_request_of_some hvalue, htable]
  rfl

theorem kept_configured (config : BspConfig) (before after : List Call) :
    Kept (configured config before) (configured config (before ++ after)) := by
  induction after using List.reverseRecOn with
  | nil => rw [List.append_nil]; exact .refl _
  | append_singleton after last ih =>
    intro pin hchannel
    have hpin := ih pin hchannel
    have hlast := kept_drvPinMode (configured_stores config (before ++ after)) last.1 last.2 pin
      (by rw [hpin]; exact hchannel)
    rw [← List.append_assoc, configured, List.foldl_append]
    exact hlast.trans hpin

/-! ## The effects of a call -/

/-- An effect on a pin or a channel is one on this pin and this channel. -/
def Concerns (pin : PinIndex) (channel : ℤ) : Effect → Prop
  | .fpioaSetFunction other function => other = pin ∧ function = .gpiohs channel
  | .gpiohsSetDriveMode other _ => other = channel
  | .logError _ | .logWarning _ => True

theorem setMode_concerns (pin : PinIndex) (channel mode : ℤ) :
    Concerns pin channel (setMode channel mode) := by
  rw [setMode]
  split_ifs <;> trivial

/-- A call of `drv_pin_mode` routes its own pin only, to the channel the table then records, and
sets the drive mode of no other channel. -/
theorem drvPinMode_concerns (driver : Driver) (pin : PinIndex) (mode : ℤ) :
    ∀ effect ∈ (drvPinMode driver pin mode).2,
      Concerns pin ((drvPinMode driver pin mode).1.pinAllocTable pin) effect := by
  by_cases hnone : driver.pinAllocTable pin = -1
  · by_cases hfull : driver.freePin = 31
    · simp [drvPinMode, getPinChannel, allocPinChannel, hnone, hfull, Concerns]
    · have hchannel : ¬ (driver.freePin : ℤ) = -1 := by omega
      have hrun : drvPinMode driver pin mode =
          ({ pinAllocTable := Function.update driver.pinAllocTable pin driver.freePin
             freePin := driver.freePin + 1 },
            [.fpioaSetFunction pin (.gpiohs driver.freePin), setMode driver.freePin mode]) := by
        simp [drvPinMode, getPinChannel, allocPinChannel, hnone, hfull, hchannel]
      rw [hrun]
      simp only [List.mem_cons, List.not_mem_nil, or_false, Function.update_self,
        forall_eq_or_imp, forall_eq]
      exact ⟨⟨rfl, rfl⟩, setMode_concerns pin driver.freePin mode⟩
  · rw [drvPinMode_of_channel hnone]
    simp [setMode_concerns]

/-! ## The bound channels -/

theorem mem_boundChannels {channel : ℤ} :
    channel ∈ boundChannels ↔ channel = 2 ∨ channel = 21 ∨ channel = 22 := by
  have hlist : boundChannels = [2, 21, 22] := rfl
  simp [hlist]

/-- In the shipped configuration a bound channel is handed out exactly when a third pin asks. -/
theorem unbound_iff (h : Stores shipped numbering driver) :
    (∀ pin, driver.pinAllocTable pin ∉ boundChannels) ↔ numbering.count ≤ 2 := by
  have hstart : gpioAllocStart shipped = 0 := rfl
  constructor
  · intro hunbound
    by_contra hcount
    obtain ⟨pin, hpin⟩ := Numbering.exists_number (show 2 < numbering.count by omega)
    refine hunbound pin (mem_boundChannels.mpr (.inl ?_))
    rw [h.table, hpin, hstart]
    rfl
  · intro hcount pin hmem
    rw [mem_boundChannels] at hmem
    obtain ⟨value, hvalue, htable⟩ := exists_number_of_channel h
      (show driver.pinAllocTable pin ≠ -1 by omega)
    have hlt := Numbering.number_lt hvalue
    omega

theorem tableExclusive_iff (h : Stores shipped numbering driver) :
    TableExclusive driver ↔ numbering.count ≤ 2 := by
  obtain ⟨hrange, hdistinct⟩ := stores_distinct h
  rw [← unbound_iff h]
  refine ⟨TableExclusive.unbound, fun hunbound ↦ ⟨fun pin hchannel ↦ ?_, hdistinct, hunbound⟩⟩
  have hbounds := hrange pin hchannel
  omega

/-- The two-pin bound is inherited by every prefix of a sequence of calls. -/
theorem card_pins_le_of_append (before after : List Call) :
    (before.map Prod.fst).toFinset.card ≤ ((before ++ after).map Prod.fst).toFinset.card := by
  refine Finset.card_le_card fun pin hpin ↦ ?_
  rw [List.map_append, List.toFinset_append]
  exact Finset.mem_union_left _ hpin

/-- **Exclusive channels.** In the shipped configuration the channels stay exclusive over a
sequence of calls exactly when the calls configure at most two different pins. -/
theorem channels_exclusive_iff (calls : List Call) :
    ChannelsExclusive shipped calls ↔ (calls.map Prod.fst).toFinset.card ≤ 2 := by
  have hexclusive : ∀ prior : List Call, TableExclusive (configured shipped prior) ↔
      (prior.map Prod.fst).toFinset.card ≤ 2 := fun prior ↦
    (tableExclusive_iff (configured_stores shipped prior)).trans
      (Numbering.count_requests_le_iff (by decide))
  constructor
  · intro h
    exact (hexclusive calls).mp (h calls [] (List.append_nil calls).symm).1
  · rintro hcard before after rfl
    exact ⟨(hexclusive before).mpr ((card_pins_le_of_append before after).trans hcard),
      kept_configured shipped before after⟩

/-- Three pins are enough: the third gets the channel of IO 8. -/
theorem third_pin_takes_bound_channel :
    ¬ ChannelsExclusive shipped [(0, 0), (1, 0), (3, 0)] := by
  intro h
  exact (h _ [] (List.append_nil _).symm).1.unbound 3 (by decide)

end K210Firmware.Pin.Exclusive
