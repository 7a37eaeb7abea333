import SourceScan.Reporter
import SourceScan.Toml.Library

/-!
# Configurations

A configuration is the reporting policy, kept as a TOML document. Two settings count, both of them
truth values in the table `diagnostics`; each is off unless it is set. Everything else in a
document is ignored.

How a document is decoded is up to a library for TOML: a configuration is declared as a record with
one field, and a policy as a record with two (`Config.decoder`, `Config.policyDecoder`). How a
configuration is written is up to it as well. A `Codec` is both.
-/

namespace SourceScan

/-- The settings of the program. -/
structure Config where
  diagnostics : Policy := {}
deriving DecidableEq, Inhabited

namespace Config

def diagnosticsKey : String := "diagnostics"

def panicKey : String := "panic_on_error"

def echoKey : String := "echo"

section Decoders

variable (l : Toml.Library)

/-- A policy: first whether to halt, then whether to echo. -/
def policyDecoder : l.Decoder Policy :=
  l.record "DiagnosticsConfig"
    (.field (.field (.start Policy.mk) panicKey false l.flag) echoKey false l.flag)

/-- **What a configuration is decoded from:** a policy under the key `diagnostics`. -/
def decoder : l.Decoder Config :=
  l.record "Config" (.field (.start Config.mk) diagnosticsKey {} (policyDecoder l))

end Decoders

end Config

/-- **How configurations are read and written.** Writing fails with the message of the library. -/
structure Codec where
  library : Toml.Library
  encode : Config → Except String String

namespace Codec

/-- Decoding a text as a configuration. -/
def decode (k : Codec) (text : String) : Except Toml.ParseError Config :=
  k.library.fromText (Config.decoder k.library) text

/-- **What is relied on for configurations to last:** a text that was written is read back as what
it was written for. -/
def RoundTrips (k : Codec) : Prop :=
  ∀ (c : Config) (text : String), k.encode c = .ok text → k.decode text = .ok c

end Codec

end SourceScan
