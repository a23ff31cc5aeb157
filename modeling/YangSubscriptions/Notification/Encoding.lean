import YangSubscriptions.Json.Record
import YangSubscriptions.Text.Blank
import YangSubscriptions.Schema.Basic

/-!
# Encodings

The encodings of notification messages, with their identities and media types.
-/

namespace YangSubscriptions

/-- The encoding of a subscription's messages. -/
inductive Encoding where
  | json
  | xml
  deriving DecidableEq, Repr, Inhabited

namespace Encoding

def localName : Encoding → String
  | json => "encode-json"
  | xml => "encode-xml"

/-- The identity of an encoding, with the prefix of the protocol's module (`identity`). -/
def identity (e : Encoding) : String := subscribedNotifications ++ ":" ++ e.localName

/-- The type of a body in this encoding (`media_type`). -/
def mediaType : Encoding → String
  | json => "application/yang-data+json"
  | xml => "application/yang-data+xml"

/-- The encoding of an identity, whatever its prefix is (`from_identity`). -/
def ofIdentity? (identity : String) : Option Encoding :=
  let name := Text.trim (((Text.cutLast? ':' identity).map (·.2)).getD identity)
  if name = json.localName then some json else if name = xml.localName then some xml else none

/-- Reads an identity with the prefix of the protocol's module or none. -/
def decode : Json.Decoder Encoding :=
  .variant ([json, xml].flatMap fun e => [(e.localName, e), (e.identity, e)])

end Encoding

end YangSubscriptions
