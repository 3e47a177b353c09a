import Mathlib.Data.BitVec

/-! The combination of hashes. -/
namespace Ogre.Fml

/-- What the standard library hashes a value to: integers, enumerators, flags and
pointers by their number, strings, and an optional without a value. -/
structure StdHash where
  number : Nat → BitVec 64
  string : String → BitVec 64
  nullopt : BitVec 64

/-- One step of `HashCombineSeed`. -/
def hashCombineSeed (seed hash : BitVec 64) : BitVec 64 :=
  seed ^^^ (hash + 0x9e3779b9#64 + (seed <<< 6) + (seed >>> 2))

/-- `HashCombine` of the hashes of its arguments. -/
def hashCombine (hashes : List (BitVec 64)) : BitVec 64 := hashes.foldl hashCombineSeed 0xdabbad00#64

end Ogre.Fml
