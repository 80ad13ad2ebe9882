/-
The status code a slave leaves when it refuses a change of its application
layer state. The code is kept as it was read, since vendors use codes of their
own from 0x8000 on; the standard ones have names for diagnostics.
-/
import Servo.Text.Hex

namespace Servo

/-- A status code of the application layer. -/
structure AlStatus where
  code : UInt16
deriving DecidableEq, Repr, Inhabited

namespace AlStatus

/-- What a slave shows that has refused nothing. -/
def noError : AlStatus := ⟨0⟩

/-- The standard codes that a drive can report while it is brought up. -/
def standard : List (UInt16 × String) :=
  [(0x0000, "NoError"),
   (0x0001, "Unspecified"),
   (0x0002, "NoMemory"),
   (0x0003, "InvalidDeviceSetup"),
   (0x0011, "InvalidStateRequest"),
   (0x0012, "UnknownStateRequest"),
   (0x0013, "BootstrapNotSupported"),
   (0x0014, "NoValidFirmware"),
   (0x0015, "InvalidMailboxConfigBoot"),
   (0x0016, "InvalidMailboxConfigPreop"),
   (0x0017, "InvalidSyncConfig"),
   (0x0018, "NoInputsAvailable"),
   (0x0019, "NoValidInputs"),
   (0x001A, "Synchronization"),
   (0x001B, "SyncWatchdog"),
   (0x001C, "InvalidSyncTypes"),
   (0x001D, "InvalidOutputConfig"),
   (0x001E, "InvalidInputConfig"),
   (0x001F, "InvalidWatchdogConfig"),
   (0x0020, "NeedColdStart"),
   (0x0021, "NeedInit"),
   (0x0022, "NeedPreop"),
   (0x0023, "NeedSafeOp"),
   (0x0024, "InvalidInputMapping"),
   (0x0025, "InvalidOutputMapping"),
   (0x0026, "InconsistentSettings"),
   (0x0027, "FreeRunNotSupported"),
   (0x0028, "SyncModeNotSupported"),
   (0x0029, "FreeRunNeedsBuffer"),
   (0x002A, "BackgroundWatchdog"),
   (0x002B, "NoValidIO"),
   (0x002C, "FatalSync"),
   (0x002D, "NoSync"),
   (0x0030, "InvalidDcConfig"),
   (0x0031, "InvalidLatchConfig"),
   (0x0032, "PLL"),
   (0x0033, "DCSyncIO"),
   (0x0034, "DCSyncTimeout"),
   (0x0035, "DCInvalidPeriod"),
   (0x0043, "MailboxCOE"),
   (0x0051, "Eeprom"),
   (0x0060, "SlaveRestarted")]

/-- The name of a standard code. -/
def name? (status : AlStatus) : Option String := standard.lookup status.code

/-- The code, with its name or its origin where one is known. -/
def text (status : AlStatus) : String :=
  "0x" ++ Hex.padded 4 status.code.toNat ++
    match status.name? with
    | some name => " (" ++ name ++ ")"
    | none => if status.code ≥ 0x8000 then " (vendor specific)" else ""

end AlStatus

end Servo
