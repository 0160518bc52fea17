import Mustache.Buffer
import Mustache.Main
import Mustache.Proofs.Scan
import Mustache.Proofs.Escape
import Mustache.Proofs.Section
import Mustache.Proofs.Meaning
import Mustache.Proofs.Clean
import Mustache.Proofs.Valid
import Mustache.Proofs.Mute
import Mustache.Proofs.Callouts
import Mustache.Proofs.Effects
import Mustache.Proofs.Remainder
import Mustache.Proofs.Nesting
import Mustache.Proofs.Alarm
import Mustache.Proofs.Written
import Mustache.Proofs.Descent
import Mustache.Proofs.Limit
import Mustache.Proofs.Alike
import Mustache.Proofs.Usable
import Mustache.Proofs.Padding
import Mustache.Proofs.Footprint
import Mustache.Proofs.Redirect
import Mustache.Proofs.PartialFiles
import Mustache.Proofs.Entities
import Mustache.Proofs.Grammar
import Mustache.Proofs.Located
import Mustache.Proofs.Closing
import Mustache.Proofs.Spaceless
import Mustache.Proofs.Addressed
import Mustache.Proofs.Fields
import Mustache.Proofs.Strings
import Mustache.Proofs.Chunks
import Mustache.Proofs.Threshold
import Mustache.Proofs.Decoding
import Mustache.Proofs.Discovery
import Mustache.Proofs.Loggers
import Mustache.Proofs.LogLine
