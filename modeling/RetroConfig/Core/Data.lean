import Mathlib.Data.List.Basic

/-!
# `Data`: bytes behind a reading position

`BufferData` (`gcore/core/Data.h`) is the `Data` that lies in memory.
-/

namespace RetroConfig

/-- `BufferData`. -/
structure BufferData where
  size : Nat
  bBuffer : List UInt8
  offset : Nat
  deriving DecidableEq

namespace BufferData

/-- `BufferData::initialize` with `Copy`, its default. -/
def ofBuffer (buffer : List UInt8) (size : Nat) : BufferData := ⟨size, buffer.take size, 0⟩

/-- The bytes that it holds. -/
def contents (d : BufferData) : List UInt8 := d.bBuffer.take d.size

theorem contents_ofBuffer (buffer : List UInt8) :
    (ofBuffer buffer buffer.length).contents = buffer := by
  rw [contents, ofBuffer, List.take_length, List.take_length]

end BufferData

end RetroConfig
