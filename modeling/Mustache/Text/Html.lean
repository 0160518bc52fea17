import Mustache.Bytes

/-!
This module contains the escaping of text for HTML: six characters become entities, and all other
bytes stay as they are.
-/

namespace Mustache.Html

def entity? (b : UInt8) : Option Bytes :=
  if b = 0x26 then some (Bytes.ofAscii "&amp;")
  else if b = 0x5C then some (Bytes.ofAscii "&#92;")
  else if b = 0x22 then some (Bytes.ofAscii "&quot;")
  else if b = 0x27 then some (Bytes.ofAscii "&#39;")
  else if b = 0x3C then some (Bytes.ofAscii "&lt;")
  else if b = 0x3E then some (Bytes.ofAscii "&gt;")
  else none

def escapeByte (b : UInt8) : Bytes :=
  (entity? b).getD [b]

/-- Escaped text is escaped again: an entity is text as any other. -/
def escape (text : Bytes) : Bytes :=
  if text.any fun b => (entity? b).isSome then text.flatMap escapeByte else text

end Mustache.Html
