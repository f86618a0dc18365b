namespace Handheld

@[ext] structure ReaderSettings where
  digits : Vector UInt16 5
  buzzerFrequency : UInt16
  buzzerLength : UInt16
  laser : UInt8
  verify : UInt8
  vibration : UInt16
  deriving DecidableEq

def ReaderSettings.standard : ReaderSettings := ⟨#v[0, 0, 0, 0, 0], 1950, 5, 5, 1, 20⟩

/-- One configuration record of the reader. -/
inductive BarcodeSetup where
  | symbology (map : UInt16)
  | reader (settings : ReaderSettings)
  deriving DecidableEq

namespace BarcodeSetup

def standardMap : UInt16 := 0x95

/-- The number of the record. -/
def number : BarcodeSetup → Nat
  | symbology _ => 1
  | reader _ => 2

/-- The two records that a program starts with unless it says otherwise. -/
def standard : List BarcodeSetup := [symbology standardMap, reader .standard]

end BarcodeSetup

@[ext] structure ScanFlags where
  vibrate : Bool
  continued : Bool
  buzzerLed : Bool
  keyInterrupt : Bool
  ignoreTrigger : Bool
  underbarCursor : Bool
  deriving DecidableEq

def ScanFlags.standard : ScanFlags := ⟨false, false, true, true, false, true⟩

end Handheld
