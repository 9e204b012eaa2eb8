/-
GUIDs.

A GUID has three numbers and eight bytes. It is written in hexadecimal groups
(`6f15aaf2-d208-4e89-9ab4-489535d34f9c`), stored with the three numbers in little-endian order, and
initialized from a list of eleven integers, each of which is taken modulo the width of its place.
-/
import HeaderModel.Text.Number
import HeaderModel.Text.Split

namespace HeaderModel

/-- a globally unique identifier -/
structure Guid where
  first : UInt32
  second : UInt16
  third : UInt16
  tail : Vector UInt8 8
  deriving DecidableEq, Repr

/-- a number as bytes, the lowest first -/
def littleEndian : Nat → Nat → List UInt8
  | 0, _ => []
  | width + 1, n => UInt8.ofNat n :: littleEndian width (n / 256)

namespace Guid

/-- the sixteen bytes in which the identifier is stored -/
def bytes (g : Guid) : List UInt8 :=
  littleEndian 4 g.first.toNat ++ littleEndian 2 g.second.toNat ++ littleEndian 2 g.third.toNat ++ g.tail.toList

/-- the identifier in its five groups, in lower case -/
def text (g : Guid) : String :=
  let bytesText := fun (bs : List UInt8) => bs.flatMap fun b => Text.hexDigits 2 b.toNat
  String.ofList (['-'].intercalate [Text.hexDigits 8 g.first.toNat, Text.hexDigits 4 g.second.toNat,
    Text.hexDigits 4 g.third.toNat, bytesText (g.tail.toList.take 2), bytesText (g.tail.toList.drop 2)])

/-- the bytes of a row of pairs of hexadecimal digits -/
def bytesOfHex? : List Char → Option (List UInt8)
  | [] => some []
  | [_] => none
  | high :: low :: rest => do
    let value ← Text.radixNumber? 16 [high, low]
    return UInt8.ofNat value :: (← bytesOfHex? rest)

/-- read the five groups, in either case -/
def ofText? (s : String) : Option Guid :=
  match Text.piecesAt '-' s.toList with
  | [a, b, c, d, e] =>
    if [a, b, c, d, e].map List.length = [8, 4, 4, 4, 12] then do
      let first ← Text.radixNumber? 16 a
      let second ← Text.radixNumber? 16 b
      let third ← Text.radixNumber? 16 c
      match ← bytesOfHex? (d ++ e) with
      | [t0, t1, t2, t3, t4, t5, t6, t7] =>
        return ⟨UInt32.ofNat first, UInt16.ofNat second, UInt16.ofNat third, #v[t0, t1, t2, t3, t4, t5, t6, t7]⟩
      | _ => none
    else none
  | _ => none

/-- the identifier with eleven integers in its places -/
def ofIntegers? : List Int → Option Guid
  | [a, b, c, t0, t1, t2, t3, t4, t5, t6, t7] =>
    some ⟨UInt32.ofInt a, UInt16.ofInt b, UInt16.ofInt c, #v[UInt8.ofInt t0, UInt8.ofInt t1, UInt8.ofInt t2,
      UInt8.ofInt t3, UInt8.ofInt t4, UInt8.ofInt t5, UInt8.ofInt t6, UInt8.ofInt t7]⟩
  | _ => none

/-- a character that an initializer may hold besides its integers and commas -/
def isFiller (c : Char) : Bool := ['{', '}', 'u', 'U', 'l', 'L', ' '].contains c

/-- read an initializer such as `{1ul, 2u, 3u, {4u, 5u, 6u, 7u, 8u, 9u, 10u, 11u}}` -/
def ofInitializer? (s : String) : Option Guid :=
  let body := Text.trim s.toList
  if body.head? = some '{' && body.getLast? = some '}' then
    ((Text.piecesAt ',' (body.filter fun c => !isFiller c)).mapM (Text.intWithin? (UInt64.size / 2))).bind ofIntegers?
  else none

end Guid

end HeaderModel
