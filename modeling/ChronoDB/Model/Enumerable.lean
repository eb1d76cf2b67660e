import Mathlib.Data.Rat.Encodable
import Mathlib.Logic.Equiv.List
import Mathlib.Tactic.DeriveEncodable
import ChronoDB.Model.Types

namespace ChronoDB

/-!
# Enumerations of the data model

Every type of the data model is encodable, so every one of them has a lossless,
self-closing codec.
-/

instance encodableUInt64 : Encodable UInt64 :=
  Encodable.ofLeftInverse UInt64.toNat UInt64.ofNat fun number => by simp

instance encodableInt64 : Encodable Int64 :=
  Encodable.ofLeftInverse Int64.toInt Int64.ofInt fun number => by simp

instance encodableChar : Encodable Char :=
  Encodable.ofLeftInverse Char.toNat Char.ofNat Char.ofNat_toNat

instance encodableString : Encodable String :=
  Encodable.ofLeftInverse String.toList String.ofList fun text => by simp

deriving instance Encodable for Label

deriving instance Encodable for Sample

end ChronoDB
