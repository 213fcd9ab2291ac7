import Rpi3Bench.Common
import Rpi3Bench.GetMedian

/-!
# The array after `get_median`

`qsort` sees twice as many elements as the array has doubles, half as wide, and
is told of half of them.  What it leaves is an ascending array of the same
doubles only when that array has the old words past the first `array_size`, and
the words before them in the order of the comparator.
-/

namespace Rpi3Bench.GetMedian

variable {a : List FiniteDouble} {s : List Word}

end Rpi3Bench.GetMedian
