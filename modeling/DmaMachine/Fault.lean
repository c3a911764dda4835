/-!
# Faults

A *fault* is the reason why an operation of the machine gave no result.  Each constructor is a
cause; the wording belongs to `Fault.message` alone, so that a statement about failing names the
cause and never a text.

* `ChannelFault`: a DMA channel was programmed for something it cannot do, or a transfer broke
  the rules of its format.
* `SettingsFault`, `SnapshotFault`, `FileFault`: what can be wrong with a settings text, with a
  saved image, and with a file.
* `Fault`: all of them, beside the faults of the event table and of the bus.
-/

namespace DmaMachine

/-- The hexadecimal digits of `n`, in upper case, with zeros in front up to `width` digits. -/
def hexText (width n : Nat) : String :=
  let digits := (Nat.toDigits 16 n).map Char.toUpper
  String.ofList (List.replicate (width - digits.length) '0' ++ digits)

/-- What a DMA channel refuses, or what ends its transfer.  A channel is given by its number and,
where the message names it, by its name. -/
inductive ChannelFault where
  /-- The peripheral moves no data in this direction. -/
  | unsupportedDirection (channel : Nat) (name direction : String)
  /-- The peripheral does not transfer in this synchronisation mode. -/
  | unsupportedSyncMode (channel : Nat) (name : String) (mode : UInt32)
  /-- A linked list went on past the node limit; `address` is the node not visited any more. -/
  | linkedListOverflow (channel limit : Nat) (address : UInt32)
  /-- No register stands at this offset of the channel's window. -/
  | invalidRegister (channel : Nat) (offset : UInt32)
  /-- The channel has no data port to move a unit through. -/
  | noDataPort (channel : Nat) (name : String)
deriving DecidableEq

def ChannelFault.message : ChannelFault → String
  | .unsupportedDirection channel name direction =>
      s!"DMA{channel} ({name}) does not support transfers {direction}"
  | .unsupportedSyncMode channel name mode =>
      s!"DMA{channel} ({name}) does not support sync mode {mode}"
  | .linkedListOverflow channel limit address =>
      s!"DMA{channel} linked list exceeded {limit} nodes (last node at 0x"
        ++ hexText 6 address.toNat ++ ")"
  | .invalidRegister channel offset =>
      s!"DMA{channel} register offset 0x" ++ hexText 2 offset.toNat ++ " is not mapped"
  | .noDataPort channel name => s!"DMA{channel} ({name}) has no peripheral data port"

/-- What is wrong with settings, or with a value that a setting could have held. -/
inductive SettingsFault where
  /-- The text is no settings text. -/
  | malformed
  | zeroRunCycles
  | zeroTimerPeriod
  | unknownLogLevel (level : String)
  /-- A periodic event of this name was asked for with period zero. -/
  | zeroPeriod (event : String)
  | other (text : String)
deriving DecidableEq

def SettingsFault.message : SettingsFault → String
  | .malformed => "Failed to parse config"
  | .zeroRunCycles => "run_cycles must be non-zero"
  | .zeroTimerPeriod => "timer_period must be non-zero"
  | .unknownLogLevel level => s!"unknown log level '{level}'"
  | .zeroPeriod event => s!"periodic event '{event}' needs a non-zero period"
  | .other text => text

/-- What is wrong with a saved image. -/
inductive SnapshotFault where
  /-- The bytes are no image. -/
  | undecodable
  | wrongVersion (expected found : UInt32)
  | wrongChannelCount (expected found : Nat)
  | wrongRamSize (expected found : Nat)
  | other (text : String)
deriving DecidableEq

def SnapshotFault.message : SnapshotFault → String
  | .undecodable => "decode failed"
  | .wrongVersion expected found =>
      s!"Incompatible save state version: expected {expected}, got {found}"
  | .wrongChannelCount expected found => s!"expected {expected} DMA channels, found {found}"
  | .wrongRamSize expected found => s!"RAM image is {found} bytes (expected {expected})"
  | .other text => text

/-- What is wrong with a file. -/
inductive FileFault where
  | notFound
  | notUtf8
  | isFolder
  /-- A part of the path that should be a folder is none. -/
  | notFolder
  /-- The path holds the character with number zero. -/
  | nulInPath
  /-- The path, or a name in it, is longer than any that a file can have. -/
  | nameTooLong
  | other (text : String)
deriving DecidableEq

def FileFault.message : FileFault → String
  | .notFound => "No such file or directory (os error 2)"
  | .notUtf8 => "stream did not contain valid UTF-8"
  | .isFolder => "Is a directory (os error 21)"
  | .notFolder => "Not a directory (os error 20)"
  | .nulInPath => "file name contained an unexpected NUL byte"
  | .nameTooLong => "File name too long (os error 36)"
  | .other text => text

/-- Why an operation of the machine gave no result. -/
inductive Fault where
  /-- The event table already holds `capacity` events. -/
  | tableFull (capacity : Nat)
  /-- A device refused an access at this address. -/
  | invalidAccess (address : UInt32)
  /-- An access of `size` bytes at an address that is no multiple of `size`. -/
  | unaligned (address : UInt32) (size : Nat)
  | channel (cause : ChannelFault)
  | file (cause : FileFault)
  | settings (cause : SettingsFault)
  | snapshot (cause : SnapshotFault)
deriving DecidableEq

/-- The text that a fault is shown as. -/
def Fault.message : Fault → String
  | .tableFull capacity => s!"Event table full: {capacity} events already scheduled"
  | .invalidAccess address => "Invalid memory access at 0x" ++ hexText 8 address.toNat
  | .unaligned address size =>
      s!"Unaligned memory access: {size}-byte access at 0x" ++ hexText 8 address.toNat
  | .channel cause => "DMA error: " ++ cause.message
  | .file cause => "I/O error: " ++ cause.message
  | .settings cause => "Configuration error: " ++ cause.message
  | .snapshot cause => "Save state error: " ++ cause.message

end DmaMachine
