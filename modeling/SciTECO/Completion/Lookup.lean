import SciTECO.Completion.AutoComplete

/-!
# Ordered lookup

The keys of a tree ascend in the comparison by which they were inserted.  A
search that fails ends in front of the least key above.
-/

namespace SciTECO
namespace Completion

open SearchTree (TotalPreorder Ascending)

/-!
## Comparing keys
-/

end Completion
end SciTECO
