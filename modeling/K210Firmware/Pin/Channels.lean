import K210Firmware.Library.Numbering
import Mathlib.Data.Int.Notation

/-!
# The GPIO driver and its channels

Each of the 48 pins can be routed to one of 32 high-speed GPIO channels. The driver takes channels
from a bump counter and records them in `pin_alloc_table`; the routing and the drive modes are
calls of the SDK, which the model returns in the order in which they are made. Other parts of the
firmware route channels of their own, by literal numbers or by the enumerators of
`HS_GPIO_CONFIG` below which the driver does not allocate.
-/

namespace K210Firmware.Pin.Channels

abbrev PinIndex := Fin 48

/-- The functions that the shipped tables and drivers route to a pin. -/
inductive FpioaFunction
  | uart1Rx
  | uart1Tx
  | gpio (channel : ℕ)
  | gpiohs (channel : ℤ)
  | sccbSda
  | sccbSclk
  | cmosRst
  | cmosVsync
  | cmosPwdn
  | cmosXclk
  | cmosPclk
  | cmosHref
  deriving DecidableEq, Repr

inductive DriveMode
  | input
  | inputPullDown
  | inputPullUp
  | output
  deriving DecidableEq, Repr

/-- What the driver asks of the SDK and of the log. -/
inductive Effect
  | fpioaSetFunction (pin : PinIndex) (function : FpioaFunction)
  | gpiohsSetDriveMode (channel : ℤ) (mode : DriveMode)
  | logError (text : String)
  | logWarning (text : String)
  deriving DecidableEq, Repr

/-! ## Channels routed elsewhere -/

/-- The build switches that reserve channels by name. -/
structure BspConfig where
  usingLcd : Bool
  spi1UsingSs0 : Bool
  spi1UsingSs1 : Bool
  spi1UsingSs2 : Bool
  spi1UsingSs3 : Bool

/-- The enumerators of `enum HS_GPIO_CONFIG` before `GPIO_ALLOC_START`. -/
inductive HsGpioConfig
  | lcdDcPin
  | spi1Cs0Pin
  | spi1Cs1Pin
  | spi1Cs2Pin
  | spi1Cs3Pin
  deriving DecidableEq, Repr

/-- The enumerators that a configuration compiles in; each has its place as its value. -/
def hsGpioConfig (config : BspConfig) : List HsGpioConfig :=
  (if config.usingLcd then [.lcdDcPin] else []) ++
    (if config.spi1UsingSs0 then [.spi1Cs0Pin] else []) ++
    (if config.spi1UsingSs1 then [.spi1Cs1Pin] else []) ++
    (if config.spi1UsingSs2 then [.spi1Cs2Pin] else []) ++
    (if config.spi1UsingSs3 then [.spi1Cs3Pin] else [])

def gpioAllocStart (config : BspConfig) : ℕ := (hsGpioConfig config).length

/-- `rtconfig.h`. -/
def shipped : BspConfig := ⟨false, false, false, false, false⟩

/-- `io_config` as the shipped configuration compiles it. -/
def ioConfig : List (PinIndex × FpioaFunction) :=
  [(6, .uart1Rx), (7, .uart1Tx), (8, .gpiohs 2),
    (12, .gpio (0 + 4)), (13, .gpio (0 + 5)), (14, .gpio (0 + 6)),
    (15, .gpio (0 + 1)), (16, .gpio (0 + 0)), (17, .gpio (0 + 2)),
    (40, .sccbSda), (41, .sccbSclk), (42, .cmosRst), (43, .cmosVsync), (44, .cmosPwdn),
    (46, .cmosXclk), (47, .cmosPclk), (45, .cmosHref)]

/-- The functions that `init_rst` and `init_dcx` route for the panel. -/
def tftFunctions : List FpioaFunction := [.gpiohs 21, .gpiohs 22]

def FpioaFunction.gpiohsChannel : FpioaFunction → Option ℤ
  | gpiohs channel => some channel
  | _ => none

/-- The GPIOHS channels that the firmware routes by a literal number. -/
def boundChannels : List ℤ :=
  (ioConfig.map Prod.snd ++ tftFunctions).filterMap FpioaFunction.gpiohsChannel

/-! ## The driver -/

/-- The static variables of `drv_gpio.c` that hold channels. -/
structure Driver where
  pinAllocTable : PinIndex → ℤ
  freePin : ℕ

def rtHwPinInit (config : BspConfig) : Driver where
  pinAllocTable _ := -1
  freePin := gpioAllocStart config

def allocPinChannel (driver : Driver) (pin : PinIndex) : ℤ × Driver × List Effect :=
  if driver.freePin = 31 then (-1, driver, [.logError "no free gpiohs channel to alloc"])
  else if driver.pinAllocTable pin ≠ -1 then
    (driver.pinAllocTable pin, driver,
      [.logWarning ("already alloc gpiohs channel for pin " ++ toString pin.val)])
  else
    (driver.freePin,
      { pinAllocTable := Function.update driver.pinAllocTable pin driver.freePin
        freePin := driver.freePin + 1 },
      [.fpioaSetFunction pin (.gpiohs driver.freePin)])

def getPinChannel (driver : Driver) (pin : PinIndex) : ℤ := driver.pinAllocTable pin

/-- The `switch` of `drv_pin_mode`. -/
def setMode (channel mode : ℤ) : Effect :=
  if mode = 0x00 then .gpiohsSetDriveMode channel .output
  else if mode = 0x01 then .gpiohsSetDriveMode channel .input
  else if mode = 0x02 then .gpiohsSetDriveMode channel .inputPullUp
  else if mode = 0x03 then .gpiohsSetDriveMode channel .inputPullDown
  else .logError ("Not support mode " ++ toString mode)

def drvPinMode (driver : Driver) (pin : PinIndex) (mode : ℤ) : Driver × List Effect :=
  let channel := getPinChannel driver pin
  if channel = -1 then
    let (channel, driver, effects) := allocPinChannel driver pin
    if channel = -1 then (driver, effects) else (driver, effects ++ [setMode channel mode])
  else (driver, [setMode channel mode])

/-- The arguments of one `drv_pin_mode` call. -/
abbrev Call := PinIndex × ℤ

/-- The driver after `rt_hw_pin_init` and a sequence of calls. -/
def configured (config : BspConfig) (calls : List Call) : Driver :=
  calls.foldl (fun driver call ↦ (drvPinMode driver call.1 call.2).1) (rtHwPinInit config)

/-! ## The counter and the table number the pins -/

/-- The number of channels between the start and the exhaustion check. -/
def channelLimit (config : BspConfig) : ℕ := 31 - gpioAllocStart config

theorem gpioAllocStart_le (config : BspConfig) : gpioAllocStart config ≤ 5 := by
  obtain ⟨lcd, ss0, ss1, ss2, ss3⟩ := config
  revert lcd ss0 ss1 ss2 ss3
  decide

/-- The driver stores a numbering of the pins that have asked for a channel. -/
structure Stores (config : BspConfig) (numbering : Numbering PinIndex) (driver : Driver) :
    Prop where
  table : ∀ pin, driver.pinAllocTable pin =
    (numbering.number pin).elim (-1 : ℤ)
      fun value ↦ ((gpioAllocStart config + value : ℕ) : ℤ)
  freePin : driver.freePin = gpioAllocStart config + numbering.count
  limit : numbering.count ≤ channelLimit config

theorem rtHwPinInit_stores (config : BspConfig) :
    Stores config Numbering.empty (rtHwPinInit config) where
  table pin := by simp [rtHwPinInit, Numbering.number, Numbering.empty]
  freePin := rfl
  limit := Nat.zero_le _

variable {config : BspConfig} {numbering : Numbering PinIndex} {driver : Driver}

theorem Stores.table_eq_neg_one_iff (h : Stores config numbering driver) {pin : PinIndex} :
    driver.pinAllocTable pin = -1 ↔ pin ∉ numbering.keys := by
  rw [h.table, ← Numbering.number_eq_none]
  rcases numbering.number pin with _ | value
  · simp
  · simp only [Option.elim_some, reduceCtorEq]

theorem Stores.freePin_eq_iff (h : Stores config numbering driver) :
    driver.freePin = 31 ↔ numbering.count = channelLimit config := by
  have hstart := gpioAllocStart_le config
  rw [h.freePin, channelLimit]
  omega

/-- Allocation for a pin without a channel is a request for a number. -/
theorem Stores.alloc (h : Stores config numbering driver) {pin : PinIndex}
    (hnew : pin ∉ numbering.keys) :
    Stores config (numbering.request (channelLimit config) pin)
      (allocPinChannel driver pin).2.1 := by
  have hlimit := h.limit
  by_cases hfull : driver.freePin = 31
  · rw [allocPinChannel, if_pos hfull,
      Numbering.request_of_full (h.freePin_eq_iff.mp hfull).ge]
    exact h
  have hroom : numbering.count < channelLimit config :=
    lt_of_le_of_ne hlimit fun hcount ↦ hfull (h.freePin_eq_iff.mpr hcount)
  rw [allocPinChannel, if_neg hfull, if_neg (not_not.mpr (h.table_eq_neg_one_iff.mpr hnew))]
  refine ⟨fun other ↦ ?_, ?_, Numbering.count_request_le hlimit⟩
  · by_cases hother : other = pin
    · subst hother
      simp [Numbering.number_request_self hnew hroom, h.freePin]
    · simp [Function.update_of_ne hother, Numbering.number_request_of_ne hother, h.table]
  · simp only [Numbering.count_request hnew hroom, h.freePin]
    omega

theorem drvPinMode_of_channel {pin : PinIndex} (h : driver.pinAllocTable pin ≠ -1) (mode : ℤ) :
    drvPinMode driver pin mode = (driver, [setMode (driver.pinAllocTable pin) mode]) := by
  rw [drvPinMode, getPinChannel, if_neg h]

theorem drvPinMode_of_none {pin : PinIndex} (h : driver.pinAllocTable pin = -1) (mode : ℤ) :
    (drvPinMode driver pin mode).1 = (allocPinChannel driver pin).2.1 := by
  rw [drvPinMode, getPinChannel, if_pos h]
  dsimp only
  split_ifs <;> rfl

/-- **One call** of `drv_pin_mode` requests a number for its pin. -/
theorem Stores.drvPinMode (h : Stores config numbering driver) (pin : PinIndex) (mode : ℤ) :
    Stores config (numbering.request (channelLimit config) pin)
      (drvPinMode driver pin mode).1 := by
  by_cases hnew : pin ∈ numbering.keys
  · have hchannel : driver.pinAllocTable pin ≠ -1 :=
      fun hnone ↦ h.table_eq_neg_one_iff.mp hnone hnew
    rw [drvPinMode_of_channel hchannel, Numbering.request_of_mem hnew]
    exact h
  · rw [drvPinMode_of_none (h.table_eq_neg_one_iff.mpr hnew)]
    exact h.alloc hnew

/-- **Refinement.** After any sequence of calls the driver stores the numbering of their pins. -/
theorem configured_stores (config : BspConfig) (calls : List Call) :
    Stores config (Numbering.requests (channelLimit config) (calls.map Prod.fst))
      (configured config calls) := by
  induction calls using List.reverseRecOn with
  | nil => exact rtHwPinInit_stores config
  | append_singleton calls last ih =>
    rw [List.map_append, List.map_singleton, Numbering.requests_append, configured,
      List.foldl_append]
    exact ih.drvPinMode last.1 last.2

end K210Firmware.Pin.Channels
