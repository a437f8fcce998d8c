/-
  AetherGateway.Lora.Settings — what a LoRa gateway is set up with
  (lora_gateway_driver_types.h) and the AT commands of the LR02 module for it
  (dx_smart_lr02_gw.h, dx_smart_lr02_gw.cpp).

  Each enumeration carries the number the command text is built from. The values of the
  serial port's types that the driver has no command for are `other`. The frequency range
  and the serial port's other parameters go into no command: left out.
-/

namespace AetherGateway.Lora

/-! ## Settings -/

inductive LoraGatewayMode where
  | transparentTransmission
  | fixedPointTransmission
  | broadcastTransmission
  deriving DecidableEq, Repr

def LoraGatewayMode.value : LoraGatewayMode → Nat
  | .transparentTransmission => 0
  | .fixedPointTransmission => 1
  | .broadcastTransmission => 2

/-- `kLevel0` to `kLevel7`. -/
abbrev LoraGatewayLevel := Fin 8

/-- `kPower0` to `kPower22`. -/
abbrev LoraGatewayPower := Fin 23

inductive LoraGatewayBandWidth where
  | bandWidth7K81
  | bandWidth10K42
  | bandWidth15K63
  | bandWidth20K83
  | bandWidth31K25
  | bandWidth41K67
  | bandWidth62K5
  | bandWidth125K
  | bandWidth250K
  | bandWidth500K
  deriving DecidableEq, Repr

inductive LoraGatewayCodingRate where
  | cr4_5
  | cr4_6
  | cr4_7
  | cr4_8
  deriving DecidableEq, Repr

def LoraGatewayCodingRate.value : LoraGatewayCodingRate → Nat
  | .cr4_5 => 1
  | .cr4_6 => 2
  | .cr4_7 => 3
  | .cr4_8 => 4

inductive LoraGatewaySpreadingFactor where
  | sf5
  | sf6
  | sf7
  | sf8
  | sf9
  | sf10
  | sf11
  | sf12
  deriving DecidableEq, Repr

def LoraGatewaySpreadingFactor.value : LoraGatewaySpreadingFactor → Nat
  | .sf5 => 5
  | .sf6 => 6
  | .sf7 => 7
  | .sf8 => 8
  | .sf9 => 9
  | .sf10 => 10
  | .sf11 => 11
  | .sf12 => 12

inductive LoraGatewayCRCCheck where
  | crcOff
  | crcOn
  deriving DecidableEq, Repr

def LoraGatewayCRCCheck.value : LoraGatewayCRCCheck → Nat
  | .crcOff => 0
  | .crcOn => 1

inductive LoraGatewayIQSignalInversion where
  | iqOff
  | iqOn
  deriving DecidableEq, Repr

def LoraGatewayIQSignalInversion.value : LoraGatewayIQSignalInversion → Nat
  | .iqOff => 0
  | .iqOn => 1

structure LoraGatewayPowerSaveParam where
  loraGatewayMode : LoraGatewayMode
  loraGatewayLevel : LoraGatewayLevel
  loraGatewayPower : LoraGatewayPower
  loraGatewayBandWidth : LoraGatewayBandWidth
  loraGatewayCodingRate : LoraGatewayCodingRate
  loraGatewaySpreadingFactor : LoraGatewaySpreadingFactor
  deriving DecidableEq, Repr

inductive BaudRate where
  | baudRate1200
  | baudRate2400
  | baudRate4800
  | baudRate9600
  | baudRate19200
  | baudRate38400
  | baudRate57600
  | baudRate115200
  | baudRate128000
  | other
  deriving DecidableEq, Repr

inductive Parity where
  | noParity
  | oddParity
  | evenParity
  | other
  deriving DecidableEq, Repr

inductive StopBits where
  | oneStopBit
  | twoStopBit
  | other
  deriving DecidableEq, Repr

structure SerialInit where
  baudRate : BaudRate
  parity : Parity
  stopBits : StopBits
  deriving DecidableEq, Repr

structure LoraGatewayInit where
  serialInit : SerialInit
  psp : LoraGatewayPowerSaveParam
  loraGatewayMyAdress : UInt16
  loraGatewayChannel : UInt8
  loraGatewayCrcCheck : LoraGatewayCRCCheck
  loraGatewaySignalInversion : LoraGatewayIQSignalInversion
  deriving DecidableEq, Repr

def LoraGatewayPowerSaveParam.default : LoraGatewayPowerSaveParam :=
  ⟨.transparentTransmission, 0, 22, .bandWidth125K, .cr4_6, .sf12⟩

def LoraGatewayInit.default : LoraGatewayInit :=
  ⟨⟨.baudRate9600, .noParity, .oneStopBit⟩, .default, 0, 0, .crcOff, .iqOff⟩

/-! ## AT commands -/

/-- `AtRequest::Wait`: an answer expected within some milliseconds. -/
structure Wait where
  expected : String
  timeout : Nat
  deriving DecidableEq, Repr

def waitOk : Wait := ⟨"OK", 1000⟩
def waitEntryAt : Wait := ⟨"Entry AT", 1000⟩
def waitExitAt : Wait := ⟨"Exit AT", 1000⟩
def waitPowerOn : Wait := ⟨"Power on", 1000⟩

structure AtRequest where
  command : String
  waits : List Wait
  deriving DecidableEq, Repr

def hexDigit (n : Nat) : Char := Char.ofNat (if n < 10 then 48 + n else 87 + n)

/-- `%02x`. -/
def hex (value : UInt8) : String := String.ofList [hexDigit (value.toNat / 16), hexDigit (value.toNat % 16)]

def adressToString (value : UInt16) : String := hex (value >>> 8).toUInt8 ++ "," ++ hex (value &&& 0xFF).toUInt8

def channelToString (value : UInt8) : String := hex value

def baudRateCommandsLr02 : BaudRate → Option String
  | .baudRate1200 => some "AT+BAUD1"
  | .baudRate2400 => some "AT+BAUD2"
  | .baudRate4800 => some "AT+BAUD3"
  | .baudRate9600 => some "AT+BAUD4"
  | .baudRate19200 => some "AT+BAUD5"
  | .baudRate38400 => some "AT+BAUD6"
  | .baudRate57600 => some "AT+BAUD7"
  | .baudRate115200 => some "AT+BAUD8"
  | .baudRate128000 => some "AT+BAUD9"
  | .other => none

def parityCommand : Parity → Option String
  | .noParity => some "AT+PARI0"
  | .oddParity => some "AT+PARI1"
  | .evenParity => some "AT+PARI2"
  | .other => none

def stopBitsCommand : StopBits → Option String
  | .oneStopBit => some "AT+STOP1"
  | .twoStopBit => some "AT+STOP2"
  | .other => none

/-- The module takes the command in AT mode only. -/
def atPlus (command : String) : Bool := "AT+".toList.isPrefixOf command.toList

example : "AT+MAC" ++ adressToString 0xBEEF = "AT+MACbe,ef" := by decide

end AetherGateway.Lora
