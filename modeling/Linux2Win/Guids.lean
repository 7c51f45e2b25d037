import Linux2Win.Bytes

namespace Linux2Win.Guids

open Bytes

structure Guid where
  data1 : UInt32
  data2 : UInt16
  data3 : UInt16
  data4 : List Byte
  data4_length : data4.length = 8
  deriving DecidableEq

namespace Guid

def zero : Guid := ⟨0, 0, 0, List.replicate 8 0, rfl⟩

end Guid

def asciiBytes (s : String) : List Byte := s.toList.map fun c => UInt8.ofNat c.toNat

def isSpace (c : Byte) : Bool := c == 0x20 || (0x09 ≤ c && c ≤ 0x0D)

def toLower (c : Byte) : Byte := if 0x41 ≤ c && c ≤ 0x5A then c + 0x20 else c

def hexValue (c : Byte) : Option Nat :=
  if 0x30 ≤ c && c ≤ 0x39 then some (c.toNat - 0x30)
  else if 0x61 ≤ c && c ≤ 0x66 then some (c.toNat - 0x61 + 10)
  else if 0x41 ≤ c && c ≤ 0x46 then some (c.toNat - 0x41 + 10)
  else none

def hexPrefix : List Byte → List Nat
  | [] => []
  | c :: cs => match hexValue c with
    | some d => d :: hexPrefix cs
    | none => []

def hexNumber (digits : List Nat) : Nat := digits.foldl (fun n d => 16 * n + d) 0

/-- An `0x` counts as a prefix only before a hexadecimal digit. -/
def dropHexPrefix : List Byte → List Byte
  | z :: x :: c :: cs =>
      if z == 0x30 && (x == 0x78 || x == 0x58) && (hexValue c).isSome then c :: cs
      else z :: x :: c :: cs
  | cs => cs

/-- `std::stoul` in base 16: blanks, a sign, an optional prefix, then as many digits
as there are; what follows them is ignored, and no digit at all throws. A number
that does not fit the 32 bits of `unsigned long` throws as well. -/
def stoul16 (s : List Byte) : Option UInt32 :=
  let s := s.dropWhile isSpace
  let negative := s.head? == some 0x2D
  let s := if s.head? == some 0x2B || negative then s.tail else s
  let digits := hexPrefix (dropHexPrefix s)
  if digits.isEmpty || hexNumber digits ≥ 2 ^ 32 then none
  else
    let n := UInt32.ofNat (hexNumber digits)
    some (if negative then 0 - n else n)

/-- A number streamed through `std::hex`, `std::setfill('0')` and `std::setw`. -/
def hexPadded (width n : Nat) : List Byte :=
  let digits := (Nat.toDigits 16 n).map fun c => UInt8.ofNat c.toNat
  List.replicate (width - digits.length) 0x30 ++ digits

namespace Guid

def clean (str : List Byte) : List Byte :=
  (str.filter fun c => c != 0x2D && c != 0x7B && c != 0x7D).map toLower

def toString (g : Guid) : List Byte :=
  hexPadded 8 g.data1.toNat ++ [0x2D] ++ hexPadded 4 g.data2.toNat ++ [0x2D] ++
    hexPadded 4 g.data3.toNat ++ [0x2D] ++ (g.data4.take 2).flatMap (hexPadded 2 ·.toNat) ++ [0x2D] ++
    (g.data4.drop 2).flatMap (hexPadded 2 ·.toNat)

/-- A text of the wrong length and a field that throws both give the zero value. -/
def fromString (str : List Byte) : Guid :=
  let s := clean str
  if s.length != 32 then zero
  else
    let data4 := (List.range 8).map fun i => stoul16 ((s.drop (16 + i * 2)).take 2)
    match stoul16 (s.take 8), stoul16 ((s.drop 8).take 4), stoul16 ((s.drop 12).take 4) with
    | some d1, some d2, some d3 =>
      if data4.all Option.isSome then
        ⟨d1, d2.toUInt16, d3.toUInt16, data4.map fun d => (d.getD 0).toUInt8, by simp [data4]⟩
      else zero
    | _, _, _ => zero

end Guid

def linuxGenericData : Guid := .fromString (asciiBytes "0fc63daf-8483-4772-8e79-3d69d8477de4")
def linuxRootX86_64 : Guid := .fromString (asciiBytes "4f68bce3-e8cd-4db1-96e7-fbcaf984b709")
def linuxRootArm64 : Guid := .fromString (asciiBytes "69dad710-2ce4-4e3c-b16c-21a1d49abed3")
def linuxRootX86 : Guid := .fromString (asciiBytes "44479540-f297-412e-ba79-2567842e16c2")
def linuxHome : Guid := .fromString (asciiBytes "933ac7e2-d68e-4444-bd25-ce80fdb68037")
def linuxSrv : Guid := .fromString (asciiBytes "3b8f8425-20e0-4f3b-814a-112e00142f12")
def linuxVar : Guid := .fromString (asciiBytes "4d21b016-b534-45c2-a9fb-5c16e091fd2d")
def linuxVarTmp : Guid := .fromString (asciiBytes "7ec6f557-3bc5-4aca-b293-16ef5df639d1")
def linuxUserHome : Guid := .fromString (asciiBytes "773f0e24-5d23-4d7a-cd77-61047cb5d029")
def efiSystemPartition : Guid := .fromString (asciiBytes "c12a7328-f81f-11d2-ba4b-00a0c93ec93b")
def biosBoot : Guid := .fromString (asciiBytes "21686148-6449-6e6f-744e-656564454649")
def linuxBoot : Guid := .fromString (asciiBytes "bc13c2ff-59e6-4262-a352-b275fd6f7172")
def linuxSwap : Guid := .fromString (asciiBytes "0657fd6d-a4ab-43c4-84e5-0933c84b4f4f")
def windowsMSR : Guid := .fromString (asciiBytes "e3c9e310-0b23-11d1-a4a4-00aa00c76742")
def windowsRecovery : Guid := .fromString (asciiBytes "de94bba4-06d1-4d40-a16a-bfd50179d6ac")

example : linuxGenericData =
    ⟨0x0fc63daf, 0x8483, 0x4772, [0x8e, 0x79, 0x3d, 0x69, 0xd8, 0x47, 0x7d, 0xe4], rfl⟩ := by
  decide +kernel

-- A comparison of types must not start to parse these texts.
attribute [irreducible] linuxGenericData linuxRootX86_64 linuxRootArm64 linuxRootX86 linuxHome
  linuxSrv linuxVar linuxVarTmp linuxUserHome efiSystemPartition biosBoot linuxBoot linuxSwap
  windowsMSR windowsRecovery

end Linux2Win.Guids
