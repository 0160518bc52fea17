import Mustache.Value.Basic

/-!
This module contains the truth of values: settings that are false count as missing.
-/

namespace Mustache

def Value.isTrue : Value → Bool
  | .null => false
  | .bool b => b
  | .int n => n ≠ 0
  | .float (.finite _ mantissa _) => mantissa ≠ 0
  | .decimal (.finite _ digits _) => digits ≠ 0
  | .ratio q => q.num ≠ 0
  | .text s => s ≠ ""
  | .bytes _ b => b ≠ []
  | .list items => !items.isEmpty
  | .tuple items => !items.isEmpty
  | .set items => !items.isEmpty
  | .record .mapping fields => !fields.isEmpty
  | .record .row fields => !fields.isEmpty
  | .bound (.list items) => !items.isEmpty
  | .bound .absent => false
  | _ => true

end Mustache
