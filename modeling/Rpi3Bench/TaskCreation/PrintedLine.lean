import Rpi3Bench.Common
import Rpi3Bench.GetMedian.SortedArray
import Rpi3Bench.Statistics

/-!
# The two statistics of a printed line

`measure_30_times` hands `printf` the results of `get_stddev` and `get_median`
on one array, and C does not say which of them is called first.  Since
`get_median` rewrites the array, the deviation can be that of other numbers.
-/

namespace Rpi3Bench.TaskCreation

open GetMedian Statistics Dispersion

variable {a b : List FiniteDouble}

end Rpi3Bench.TaskCreation
