import AISafeOS.Types
import Mathlib.Algebra.Order.Ring.Nat
import Mathlib.Logic.Relation
/-!
# Looking for a TCP option (`services/net/tcp_options.c`)

The loop goes on by the length byte of an option, in a 16-bit offset, whatever the byte is.
-/
namespace AISafeOS
open Relation
variable (buffer : List UInt8) (kind : UInt8)
end AISafeOS
