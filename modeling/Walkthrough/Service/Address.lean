import Walkthrough.Text.Digits

/-!
# The address that the service listens on

A host and a port, written with a colon between them.
-/

namespace Walkthrough

structure ServerAddress where
  host : Text
  port : UInt16

namespace ServerAddress

def standard : ServerAddress := ⟨"127.0.0.1".toList, 4600⟩

def text (a : ServerAddress) : Text := a.host ++ [':'] ++ Text.ofNat a.port.toNat

end ServerAddress
end Walkthrough
