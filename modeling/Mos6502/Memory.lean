import Mos6502.Bus
import Mos6502.Text.Hex

/-!
# Flat memory

One byte behind every address, with no mirroring and no devices. An image loaded past the end of
the address space is clipped there.
-/

namespace Mos6502

/-- Number of addressable bytes. -/
abbrev addressSpace : Nat := 65536

@[ext]
structure Memory where
  bytes : Vector Byte addressSpace
deriving DecidableEq

/-- An image file that could not be read. -/
structure LoadError where
  path : String
  /-- What the file system answered. -/
  cause : String
deriving DecidableEq, Repr

def LoadError.message (e : LoadError) : String :=
  s!"failed to read program image {e.path}: {e.cause}"

namespace Memory

def zeros : Memory := ⟨Vector.replicate addressSpace 0⟩

instance : Inhabited Memory := ⟨zeros⟩

def read (m : Memory) (address : Word) : Byte :=
  have h : address.toNat < addressSpace := address.isLt
  m.bytes[address.toNat]

def write (m : Memory) (address : Word) (value : Byte) : Memory :=
  ⟨m.bytes.set address.toNat value address.isLt⟩

instance : Bus Memory where
  read m address := (m.read address, m)
  write := write

@[simp] theorem read_zeros (a : Word) : zeros.read a = 0 := by
  simp [zeros, read]

@[simp] theorem read_write_self (m : Memory) (a : Word) (v : Byte) : (m.write a v).read a = v := by
  simp [read, write]

theorem read_write_of_ne (m : Memory) {a b : Word} (v : Byte) (h : b ≠ a) :
    (m.write a v).read b = m.read b := by
  have h' : a.toNat ≠ b.toNat := fun e => h (BitVec.eq_of_toNat_eq e.symm)
  simp [read, write, h']

/-- Memories with the same byte at every address are the same. -/
theorem ext_read {m n : Memory} (h : ∀ a, m.read a = n.read a) : m = n :=
  Memory.ext <| Vector.ext fun i hi => by
    have e := h (BitVec.ofNatLT i hi)
    simpa [read] using e

/-! ## Loading an image -/

/-- Put bytes into consecutive cells from an index on, as far as there are cells. -/
def put (m : Memory) (index : Nat) : List Byte → Memory
  | [] => m
  | value :: rest =>
    if h : index < addressSpace then put ⟨m.bytes.set index value h⟩ (index + 1) rest else m

/-- How many bytes of an image of a given length fit from an offset on. -/
def room (offset : Word) (length : Nat) : Nat := min length (addressSpace - offset.toNat)

/-- Copy bytes into memory, and count those that landed. -/
def loadBytes (m : Memory) (offset : Word) (data : List Byte) : Nat × Memory :=
  (room offset data.length, m.put offset.toNat data)

/-- Load an image from what the file system answered for its path. -/
def load (m : Memory) (path : String) (file : Except String (List Byte)) (offset : Word) :
    Except LoadError Nat × Memory :=
  match file with
  | .ok data =>
    match m.loadBytes offset data with
    | (count, m) => (.ok count, m)
  | .error cause => (.error ⟨path, cause⟩, m)

/-! ## Views -/

/-- The bytes from an address on, cut at the end of memory. -/
def slice (m : Memory) (start : Word) (length : Nat) : List Byte :=
  (m.bytes.extract start.toNat (start.toNat + length)).toList

/-- One line that names the memory and its size. -/
def summary : String := s!"Memory \x7b size: {addressSpace}, .. \x7d"

end Memory

end Mos6502
