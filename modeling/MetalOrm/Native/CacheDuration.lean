import MetalOrm.Native.MemoryCache
import MetalOrm.ForStd.Decimal

/-!
# Cache durations

`parse_duration` of `metal/cache_types.hpp`, and what `MemoryCacheAdapter::set` makes of a duration:
the clock counts nanoseconds in 64 bits, so the milliseconds are multiplied before they are added to
the time. The sum is undefined where it overflows; here it wraps, as it does on the machines in use.
-/

namespace MetalOrm.Native

open ForStd (isDigit)

/-! ## Texts -/

/-- The exceptions of `parse_duration`. -/
inductive DurationError where
  | invalidArgument (what : List UInt8)
  | outOfRange (what : List UInt8)
deriving DecidableEq

/-- The unit is one of `s`, `m`, `h`, `d` and `w`. -/
def isDurationUnit (unit : UInt8) : Bool :=
  unit = 115 || unit = 109 || unit = 104 || unit = 100 || unit = 119

/-- `is_valid_duration` of a text. -/
def isValidDuration (value : List UInt8) : Bool :=
  if value.length < 2 then false
  else if !value.getLast?.all isDurationUnit then false
  else value.dropLast.all isDigit

/-- A duration is too large. -/
def tooLarge : DurationError :=
  .outOfRange (ByteString.ascii "MetalORM: cache duration is too large")

/-- The loop of `parse_duration`. -/
def accumulate : UInt64 → List UInt8 → Except DurationError UInt64
  | amount, [] => .ok amount
  | amount, c :: digits =>
    let digit := (c - 48).toUInt64
    if amount > (18446744073709551615 - digit) / 10 then .error tooLarge
    else accumulate (amount * 10 + digit) digits

/-- The `switch` of `parse_duration`. -/
def durationMultiplier (unit : UInt8) : UInt64 :=
  if unit = 115 then 1000
  else if unit = 109 then 60000
  else if unit = 104 then 3600000
  else if unit = 100 then 86400000
  else if unit = 119 then 604800000
  else 1000

/-- `parse_duration` of a text: milliseconds. -/
def parseDuration (value : List UInt8) : Except DurationError Int64 :=
  if !isValidDuration value then
    .error (.invalidArgument (ByteString.ascii "MetalORM: invalid cache duration '" ++ value ++
      ByteString.ascii "'; use 30s, 10m, 2h, 1d, 1w or milliseconds"))
  else do
    let amount ← accumulate 0 value.dropLast
    let multiplier := durationMultiplier (value.getLast?.getD 0)
    if amount > 9223372036854775807 / multiplier then .error tooLarge
    else return (amount * multiplier).toInt64

/-! ## The clock -/

/-- `std::chrono::steady_clock::now() + ttl`, in nanoseconds. -/
def expiryTime (now ttl : Int64) : Int64 := now + ttl * 1000000

/-- `MemoryCacheAdapter::set` at a time of the clock, with a lifetime in milliseconds. -/
def MemoryCacheAdapter.setFor (cache : MemoryCacheAdapter) (now : Int64) (key : CacheKey)
    (value : QueryResult) (ttl : Option Int64) : MemoryCacheAdapter :=
  cache.store key {
    value
    expiresAt := ttl.bind fun ttl => if ttl = 0 then none else some (expiryTime now ttl).toInt
    writer := 0 }

end MetalOrm.Native
