import ResolverTypes.Generate

/-!
# Throughput

How much was generated in how much time. Rates are 64-bit floating-point numbers: a duration of zero
gives an infinite rate, or no number at all if nothing was generated either.
-/

namespace ResolverTypes.Workload

/-- What a run generated. -/
structure Amount where
  schemas : Nat
  /-- The number of bytes of the generated texts, in UTF-8. -/
  bytes : Nat
deriving DecidableEq, Repr

/-- The amount that a run over the same document generates when it repeats it so often. A run that
repeats nothing does not look at the document. -/
def amountOfRun (text : String) (c : Config) (iterations : Nat) : Except Output.Error Amount :=
  if iterations = 0 then .ok ⟨0, 0⟩
  else
    (generateOfDocument text c).map fun output => ⟨iterations, output.utf8ByteSize * iterations⟩

/-- A span of time. -/
structure Duration where
  seconds : UInt64
  /-- The nanoseconds besides, perhaps more than a second of them. -/
  nanoseconds : UInt32
deriving DecidableEq, Repr

/-- The nanoseconds of a second. -/
def nanosecondsPerSecond : Nat := 1000000000

/-- The span in seconds. Full seconds are taken out of the nanoseconds before anything is
rounded. -/
def Duration.toFloat (d : Duration) : Float :=
  let n := d.nanoseconds.toNat
  let seconds := d.seconds + (n / nanosecondsPerSecond).toUInt64
  seconds.toFloat + (n % nanosecondsPerSecond).toUInt64.toFloat / nanosecondsPerSecond.toFloat

/-- What was generated in a span of time. -/
structure Throughput where
  schemas : UInt64
  bytes : UInt64
  duration : Duration
deriving DecidableEq, Repr

namespace Throughput

/-- The schemas generated in a second. -/
def schemasPerSecond (t : Throughput) : Float := t.schemas.toFloat / t.duration.toFloat

/-- The bytes generated in a second. -/
def bytesPerSecond (t : Throughput) : Float := t.bytes.toFloat / t.duration.toFloat

/-- The units of 1048576 bytes generated in a second. -/
def megabytesPerSecond (t : Throughput) : Float := t.bytesPerSecond / 1048576

end Throughput

end ResolverTypes.Workload
