/-!
The cyclic redundancy check of compressed files: thirty-two bits, low bit first, with the
polynomial `0xedb88320`.
-/
namespace DeviceConsole.Gzip

/-- One bit further. -/
def shiftCheck (check : UInt32) : UInt32 :=
  if check &&& 1 = 1 then (check >>> 1) ^^^ 0xedb88320 else check >>> 1

/-- `n` bits further. -/
def shiftChecks : (n : Nat) → UInt32 → UInt32
  | 0, check => check
  | n + 1, check => shiftChecks n (shiftCheck check)

/-- The check of some bytes. -/
def checksum (bytes : List UInt8) : UInt32 :=
  (bytes.foldl (fun check b => shiftChecks 8 (check ^^^ b.toUInt32)) 0xffffffff) ^^^ 0xffffffff

/- The published check value of the nine digits. -/
example : checksum [0x31, 0x32, 0x33, 0x34, 0x35, 0x36, 0x37, 0x38, 0x39] = 0xcbf43926 := by
  decide +kernel

end DeviceConsole.Gzip
